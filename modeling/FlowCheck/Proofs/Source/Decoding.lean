import FlowCheck.Proofs.Source.Encoding

/-!
# Symbols and the bytes that they were read from

Decoding loses nothing: the bytes of the symbols of a text, put together, are the text, and the text
may be cut before any symbol without a change to how its two parts are decoded.
-/
namespace FlowCheck.Symbol

/-- The bytes that a symbol was read from. -/
def bytes : Symbol → List UInt8
  | scalar c => String.utf8EncodeChar c
  | illFormed b => [b]

theorem bytes_ne_nil (s : Symbol) : s.bytes ≠ [] := by
  cases s with
  | illFormed b => simp [bytes]
  | scalar c =>
    have hlength : (String.utf8EncodeChar c).length = c.utf8Size := String.length_utf8EncodeChar c
    have hpos := c.utf8Size_pos
    rw [bytes, ← List.length_pos_iff]
    omega

/-! ### Well-formed and ill-formed bytes -/

/-- No form of a character starts with the byte `b` before `rest`. -/
structure Stray (b : UInt8) (rest : List UInt8) : Prop where
  one : ¬b < 0x80
  two : ∀ b₁ t, rest = b₁ :: t → twoBytes? b b₁ = none
  three : ∀ b₁ b₂ t, rest = b₁ :: b₂ :: t → threeBytes? b b₁ b₂ = none
  four : ∀ b₁ b₂ b₃ t, rest = b₁ :: b₂ :: b₃ :: t → fourBytes? b b₁ b₂ b₃ = none

/-- A byte is no less stray where the text ends earlier. -/
theorem Stray.of_prefix {b : UInt8} {rest rest' : List UInt8} (h : Stray b rest)
    (hp : rest' <+: rest) : Stray b rest' := by
  obtain ⟨more, rfl⟩ := hp
  refine ⟨h.one, ?_, ?_, ?_⟩
  · rintro b₁ t rfl
    exact h.two b₁ (t ++ more) rfl
  · rintro b₁ b₂ t rfl
    exact h.three b₁ b₂ (t ++ more) rfl
  · rintro b₁ b₂ b₃ t rfl
    exact h.four b₁ b₂ b₃ (t ++ more) rfl

theorem decode_stray {b : UInt8} {rest : List UInt8} (h : Stray b rest) :
    decode (b :: rest) = illFormed b :: decode rest := by
  match rest with
  | [] => simp [decode, h.one]
  | [b₁] => simp [decode, h.one, h.two b₁ [] rfl]
  | [b₁, b₂] => simp only [decode, h.one, h.two b₁ _ rfl, h.three b₁ b₂ [] rfl, if_false]
  | b₁ :: b₂ :: b₃ :: t =>
    simp only [decode, h.one, h.two b₁ _ rfl, h.three b₁ b₂ _ rfl, h.four b₁ b₂ b₃ t rfl, if_false]

theorem toNat_val_ofNat {n : Nat} (h : n < 0xD800 ∨ 0xDFFF < n ∧ n < 0x110000) :
    (Char.ofNat n).val.toNat = n := by
  have hvalid : n.isValidChar := h
  rw [Char.ofNat, dif_pos hvalid]
  rfl

theorem ofNat_eq {b : UInt8} {n : Nat} (h : n = b.toNat) : UInt8.ofNat n = b := by
  rw [h, UInt8.ofNat_toNat]

theorem encodeChar_one {b : UInt8} (h : b < 0x80) :
    String.utf8EncodeChar (Char.ofNat b.toNat) = [b] := by
  have hb : b.toNat < 128 := UInt8.lt_iff_toNat_lt.1 h
  have hval := toNat_val_ofNat (n := b.toNat) (.inl (by omega))
  simp only [String.utf8EncodeChar, hval]
  rw [if_pos (by omega), UInt8.ofNat_toNat]

theorem encodeChar_two {b₀ b₁ : UInt8} {c : Char} (h : twoBytes? b₀ b₁ = some c) :
    String.utf8EncodeChar c = [b₀, b₁] := by
  simp only [twoBytes?, isContinuation, payload, UInt8.le_iff_toNat_le, UInt8.reduceToNat,
    Bool.and_eq_true, decide_eq_true_eq, Option.ite_none_right_eq_some, Option.some_inj] at h
  obtain ⟨⟨⟨hlow, hhigh⟩, hcont⟩, rfl⟩ := h
  have hval := toNat_val_ofNat (n := b₀.toNat % 32 * 64 + b₁.toNat % 64) (.inl (by omega))
  simp only [String.utf8EncodeChar, hval]
  rw [if_neg (by omega), if_pos (by omega), ofNat_eq (b := b₀) (by omega),
    ofNat_eq (b := b₁) (by omega)]

theorem encodeChar_three {b₀ b₁ b₂ : UInt8} {c : Char} (h : threeBytes? b₀ b₁ b₂ = some c) :
    String.utf8EncodeChar c = [b₀, b₁, b₂] := by
  simp only [threeBytes?, isContinuation, payload, UInt8.le_iff_toNat_le, ← UInt8.toNat_inj,
    apply_ite UInt8.toNat, UInt8.reduceToNat, Bool.and_eq_true, decide_eq_true_eq,
    Option.ite_none_right_eq_some, Option.some_inj] at h
  obtain ⟨⟨⟨⟨⟨hlow, hhigh⟩, hlow₁⟩, hhigh₁⟩, hcont⟩, rfl⟩ := h
  have hlong : b₀.toNat = 224 → 160 ≤ b₁.toNat := fun e => by rwa [if_pos e] at hlow₁
  have hsurrogate : b₀.toNat = 237 → b₁.toNat ≤ 159 := fun e => by rwa [if_pos e] at hhigh₁
  have hlow₁' : 128 ≤ b₁.toNat := by split at hlow₁ <;> omega
  have hhigh₁' : b₁.toNat ≤ 191 := by split at hhigh₁ <;> omega
  have hval := toNat_val_ofNat
    (n := b₀.toNat % 16 * 4096 + b₁.toNat % 64 * 64 + b₂.toNat % 64) (by omega)
  simp only [String.utf8EncodeChar, hval]
  rw [if_neg (by omega), if_neg (by omega), if_pos (by omega), ofNat_eq (b := b₀) (by omega),
    ofNat_eq (b := b₁) (by omega), ofNat_eq (b := b₂) (by omega)]

theorem encodeChar_four {b₀ b₁ b₂ b₃ : UInt8} {c : Char}
    (h : fourBytes? b₀ b₁ b₂ b₃ = some c) : String.utf8EncodeChar c = [b₀, b₁, b₂, b₃] := by
  rw [fourBytes?, Option.ite_none_right_eq_some] at h
  obtain ⟨hform, hc⟩ := h
  obtain rfl := Option.some_inj.1 hc
  simp only [isContinuation, UInt8.le_iff_toNat_le, ← UInt8.toNat_inj, apply_ite UInt8.toNat,
    UInt8.reduceToNat, Bool.and_eq_true, decide_eq_true_eq] at hform
  obtain ⟨⟨⟨⟨⟨hlow, hhigh⟩, hlow₁⟩, hhigh₁⟩, hcont⟩, hcont'⟩ := hform
  have hlong : b₀.toNat = 240 → 144 ≤ b₁.toNat := fun e => by rwa [if_pos e] at hlow₁
  have hlarge : b₀.toNat = 244 → b₁.toNat ≤ 143 := fun e => by rwa [if_pos e] at hhigh₁
  have hlow₁' : 128 ≤ b₁.toNat := by split at hlow₁ <;> omega
  have hhigh₁' : b₁.toNat ≤ 191 := by split at hhigh₁ <;> omega
  have hval := toNat_val_ofNat (n := b₀.toNat % 8 * 262144 + b₁.toNat % 64 * 4096 +
    b₂.toNat % 64 * 64 + b₃.toNat % 64) (by omega)
  simp only [String.utf8EncodeChar, payload, hval]
  rw [if_neg (by omega), if_neg (by omega), if_neg (by omega), ofNat_eq (b := b₀) (by omega),
    ofNat_eq (b := b₁) (by omega), ofNat_eq (b := b₂) (by omega), ofNat_eq (b := b₃) (by omega)]

/-- A text starts with the form of a character or with a stray byte. -/
theorem encoded_or_stray (b : UInt8) (rest : List UInt8) :
    (∃ c more, b :: rest = String.utf8EncodeChar c ++ more) ∨ Stray b rest := by
  by_cases hone : b < 0x80
  · exact .inl ⟨_, rest, by rw [encodeChar_one hone]; rfl⟩
  by_cases htwo : ∃ b₁ t c, rest = b₁ :: t ∧ twoBytes? b b₁ = some c
  · obtain ⟨b₁, t, c, rfl, hc⟩ := htwo
    exact .inl ⟨c, t, by rw [encodeChar_two hc]; rfl⟩
  by_cases hthree : ∃ b₁ b₂ t c, rest = b₁ :: b₂ :: t ∧ threeBytes? b b₁ b₂ = some c
  · obtain ⟨b₁, b₂, t, c, rfl, hc⟩ := hthree
    exact .inl ⟨c, t, by rw [encodeChar_three hc]; rfl⟩
  by_cases hfour : ∃ b₁ b₂ b₃ t c, rest = b₁ :: b₂ :: b₃ :: t ∧ fourBytes? b b₁ b₂ b₃ = some c
  · obtain ⟨b₁, b₂, b₃, t, c, rfl, hc⟩ := hfour
    exact .inl ⟨c, t, by rw [encodeChar_four hc]; rfl⟩
  refine .inr ⟨hone, fun b₁ t e => ?_, fun b₁ b₂ t e => ?_, fun b₁ b₂ b₃ t e => ?_⟩
  · exact Option.eq_none_iff_forall_ne_some.2 fun c hc => htwo ⟨b₁, t, c, e, hc⟩
  · exact Option.eq_none_iff_forall_ne_some.2 fun c hc => hthree ⟨b₁, b₂, t, c, e, hc⟩
  · exact Option.eq_none_iff_forall_ne_some.2 fun c hc => hfour ⟨b₁, b₂, b₃, t, c, e, hc⟩

/-! ### Whole texts -/

/-- The bytes that a list of symbols was read from. -/
def allBytes (symbols : List Symbol) : List UInt8 := symbols.flatMap bytes

/-- Symbols, each of which is what decoding finds before the bytes of those after it. -/
inductive Decoded : List Symbol → Prop
  | nil : Decoded []
  | scalar {symbols : List Symbol} (c : Char) (rest : Decoded symbols) :
      Decoded (scalar c :: symbols)
  | illFormed {symbols : List Symbol} {b : UInt8} (stray : Stray b (allBytes symbols))
      (rest : Decoded symbols) : Decoded (illFormed b :: symbols)

theorem Decoded.decode_allBytes {symbols : List Symbol} (h : Decoded symbols) :
    decode (allBytes symbols) = symbols := by
  induction h with
  | nil => rw [allBytes, List.flatMap_nil, decode]
  | @scalar symbols c _ ih =>
    rw [allBytes, List.flatMap_cons, bytes, decode_encodeChar, ← allBytes, ih]
  | @illFormed symbols b stray _ ih =>
    rw [allBytes, List.flatMap_cons, bytes, List.singleton_append, ← allBytes, decode_stray stray,
      ih]

/-- Every text has symbols with its bytes. -/
theorem exists_decoded (text : List UInt8) :
    ∃ symbols, Decoded symbols ∧ allBytes symbols = text := by
  induction hn : text.length using Nat.strongRecOn generalizing text with
  | _ n ih =>
    match text with
    | [] => exact ⟨[], .nil, rfl⟩
    | b :: rest =>
      rcases encoded_or_stray b rest with ⟨c, more, he⟩ | hstray
      · have hlt : more.length < n := by
          have hlength := congrArg List.length he
          have hpos := List.length_pos_iff.2 (bytes_ne_nil (.scalar c))
          rw [List.length_append, ← bytes] at hlength
          omega
        obtain ⟨symbols, hsymbols, rfl⟩ := ih more.length hlt more rfl
        exact ⟨.scalar c :: symbols, hsymbols.scalar c, by rw [he]; rfl⟩
      · obtain ⟨symbols, hsymbols, rfl⟩ := ih rest.length (by simp at hn; omega) rest rfl
        exact ⟨.illFormed b :: symbols, hsymbols.illFormed hstray, rfl⟩

theorem decoded_decode (text : List UInt8) : Decoded (decode text) := by
  obtain ⟨symbols, h, rfl⟩ := exists_decoded text
  rwa [h.decode_allBytes]

/-- Decoding loses nothing. -/
theorem allBytes_decode (text : List UInt8) : allBytes (decode text) = text := by
  obtain ⟨symbols, h, rfl⟩ := exists_decoded text
  rw [h.decode_allBytes]

theorem Decoded.drop {symbols : List Symbol} (h : Decoded symbols) (n : Nat) :
    Decoded (symbols.drop n) := by
  induction h generalizing n with
  | nil => rw [List.drop_nil]; exact .nil
  | scalar c rest ih => cases n with
    | zero => exact .scalar c rest
    | succ n => exact ih n
  | illFormed stray rest ih => cases n with
    | zero => exact .illFormed stray rest
    | succ n => exact ih n

theorem Decoded.take {symbols : List Symbol} (h : Decoded symbols) (n : Nat) :
    Decoded (symbols.take n) := by
  induction h generalizing n with
  | nil => rw [List.take_nil]; exact .nil
  | scalar c rest ih => cases n with
    | zero => exact .nil
    | succ n => exact .scalar c (ih n)
  | @illFormed symbols b stray rest ih => cases n with
    | zero => exact .nil
    | succ n =>
      refine .illFormed (stray.of_prefix ⟨allBytes (symbols.drop n), ?_⟩) (ih n)
      rw [allBytes, allBytes, ← List.flatMap_append, List.take_append_drop, allBytes]

/-- The place among the bytes of a text at which its symbol `n` starts. -/
def offset (text : List UInt8) (n : Nat) : Nat := (allBytes ((decode text).take n)).length

section

variable {text : List UInt8} {n m : Nat}

theorem take_drop_offset (text : List UInt8) (n : Nat) :
    text.take (offset text n) = allBytes ((decode text).take n) ∧
      text.drop (offset text n) = allBytes ((decode text).drop n) := by
  have hsplit : text = allBytes ((decode text).take n) ++ allBytes ((decode text).drop n) := by
    rw [allBytes, allBytes, ← List.flatMap_append, List.take_append_drop, ← allBytes,
      allBytes_decode]
  constructor
  · conv => lhs; arg 2; rw [hsplit]
    exact List.take_left' rfl
  · conv => lhs; arg 2; rw [hsplit]
    exact List.drop_left' rfl

/-- The text before a symbol decodes to the symbols before it. -/
theorem decode_take_offset (text : List UInt8) (n : Nat) :
    decode (text.take (offset text n)) = (decode text).take n := by
  rw [(take_drop_offset text n).1, ((decoded_decode text).take n).decode_allBytes]

theorem decode_drop_offset (text : List UInt8) (n : Nat) :
    decode (text.drop (offset text n)) = (decode text).drop n := by
  rw [(take_drop_offset text n).2, ((decoded_decode text).drop n).decode_allBytes]

theorem offset_le_length (text : List UInt8) (n : Nat) : offset text n ≤ text.length := by
  have h := congrArg List.length (take_drop_offset text n).1
  rw [List.length_take, ← offset] at h
  omega

theorem offset_add (text : List UInt8) (n m : Nat) :
    offset text (n + m) = offset text n + (allBytes (((decode text).drop n).take m)).length := by
  rw [offset, offset, List.take_add, allBytes, List.flatMap_append, List.length_append, allBytes,
    allBytes]

/-- Every symbol takes up some bytes. -/
theorem offset_lt_offset (hn : n < (decode text).length) (hm : 0 < m) :
    offset text n < offset text (n + m) := by
  obtain ⟨s, rest, hs⟩ := List.exists_cons_of_ne_nil (List.ne_nil_of_length_pos
    (l := (decode text).drop n) (by rw [List.length_drop]; omega))
  obtain ⟨m, rfl⟩ := Nat.exists_eq_succ_of_ne_zero (Nat.ne_of_gt hm)
  have hpos := List.length_pos_iff.2 s.bytes_ne_nil
  rw [offset_add, hs, List.take_succ_cons, allBytes, List.flatMap_cons, List.length_append]
  omega

/-- The bytes between two places are those of the symbols between them. -/
theorem extract_offset (text : List UInt8) (n m : Nat) :
    text.extract (offset text n) (offset text (n + m)) =
      allBytes (((decode text).drop n).take m) := by
  rw [List.extract, (take_drop_offset text n).2, offset_add, Nat.add_sub_cancel_left]
  conv => lhs; arg 2; rw [← List.take_append_drop m ((decode text).drop n), allBytes,
    List.flatMap_append]
  exact List.take_left' rfl

end

/-- Characters that are no substitutes are written with the bytes that they were read from. -/
theorem encode_map_char {symbols : List Symbol} (h : ∀ s ∈ symbols, s.char ≠ '\uFFFD') :
    encode (symbols.map char) = allBytes symbols := by
  induction symbols with
  | nil => rfl
  | cons s symbols ih =>
    rw [List.map_cons, encode, List.flatMap_cons, ← encode,
      ih fun x hx => h x (List.mem_cons_of_mem s hx), allBytes, allBytes, List.flatMap_cons]
    cases s with
    | scalar c => rfl
    | illFormed b => exact absurd rfl (h _ List.mem_cons_self)

end FlowCheck.Symbol
