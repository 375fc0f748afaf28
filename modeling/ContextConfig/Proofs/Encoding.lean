import ContextConfig.Encoding
/-!
# Reading back UTF-8

The UTF-8 bytes of a text are read as that text, under either surrogate rule and from any position.
There is one lemma for each length of a character's form; it takes the bytes by their values, so
that the arithmetic on them stays in the natural numbers.
-/

namespace ContextConfig.Encoding

variable {rule : SurrogateRule} {pos : Nat} {a b c d : UInt8} {r : List UInt8}

theorem isTail_iff : isTail b = true ↔ 0x80 ≤ b.toNat ∧ b.toNat ≤ 0xBF := by
  simp [isTail, UInt8.le_iff_toNat_le]

theorem isSecond_iff : isSecond a b = true ↔ (0x80 ≤ b.toNat ∧ b.toNat ≤ 0xBF) ∧
    (a.toNat = 0xE0 → 0xA0 ≤ b.toNat) ∧ (a.toNat = 0xF0 → 0x90 ≤ b.toNat) ∧
    (a.toNat = 0xF4 → b.toNat ≤ 0x8F) := by
  simp only [isSecond, Bool.and_eq_true, Bool.or_eq_true, bne_iff_ne, decide_eq_true_eq,
    isTail_iff, UInt8.le_iff_toNat_le, ne_eq, ← UInt8.toNat_inj, and_assoc, Decidable.imp_iff_not_or]
  rfl

private theorem not_lt_of_toNat {a b : UInt8} (h : b.toNat ≤ a.toNat) : ¬ a < b :=
  UInt8.not_lt.mpr (UInt8.le_iff_toNat_le.mpr h)

theorem readUtf8_one (ha : a.toNat < 0x80) :
    readUtf8 rule pos (a :: r) = (readUtf8 rule (pos + 1) r).map (Char.ofNat a.toNat :: ·) := by
  rw [readUtf8.eq_def]
  exact if_pos (UInt8.lt_iff_toNat_lt.mpr ha)

theorem readUtf8_two (ha : 0xC2 ≤ a.toNat) (ha' : a.toNat < 0xE0) (hb : isTail b = true) :
    readUtf8 rule pos (a :: b :: r) = (readUtf8 rule (pos + 2) r).map
      (Char.ofNat (a.toNat % 32 * 64 + tailBits b) :: ·) := by
  have h₁ : ¬ a < 0x80 := not_lt_of_toNat (Nat.le_trans (by decide) ha)
  have h₂ : ¬ a < 0xC2 := not_lt_of_toNat ha
  have h₃ : ¬ 0xF4 < a := not_lt_of_toNat (Nat.le_of_lt (Nat.lt_of_lt_of_le ha' (by decide)))
  have h₄ : a < 0xE0 := UInt8.lt_iff_toNat_lt.mpr ha'
  rw [readUtf8.eq_def]
  simp [h₁, h₂, h₃, h₄, hb]

/-- A form of three bytes that spells no surrogate. -/
theorem readUtf8_three (ha : 0xE0 ≤ a.toNat) (ha' : a.toNat < 0xF0) (hb : isSecond a b = true)
    (hsurrogate : a.toNat = 0xED → b.toNat < 0xA0) (hc : isTail c = true) :
    readUtf8 rule pos (a :: b :: c :: r) = (readUtf8 rule (pos + 3) r).map
      (Char.ofNat (a.toNat % 16 * 4096 + tailBits b * 64 + tailBits c) :: ·) := by
  have h₁ : ¬ a < 0x80 := not_lt_of_toNat (Nat.le_trans (by decide) ha)
  have h₂ : ¬ a < 0xC2 := not_lt_of_toNat (Nat.le_trans (by decide) ha)
  have h₃ : ¬ 0xF4 < a := not_lt_of_toNat (Nat.le_of_lt (Nat.lt_of_lt_of_le ha' (by decide)))
  have h₄ : ¬ a < 0xE0 := not_lt_of_toNat ha
  have h₅ : a < 0xF0 := UInt8.lt_iff_toNat_lt.mpr ha'
  have h₆ : ¬ (a = 0xED ∧ 0xA0 ≤ b) := fun h =>
    absurd (UInt8.le_iff_toNat_le.mp h.2) (Nat.not_le.mpr (hsurrogate (h.1 ▸ rfl)))
  rw [readUtf8.eq_def]
  simp [h₁, h₂, h₃, h₄, h₅, h₆, hb, hc]

theorem readUtf8_four (ha : 0xF0 ≤ a.toNat) (ha' : a.toNat ≤ 0xF4) (hb : isSecond a b = true)
    (hc : isTail c = true) (hd : isTail d = true) :
    readUtf8 rule pos (a :: b :: c :: d :: r) = (readUtf8 rule (pos + 4) r).map
      (Char.ofNat (a.toNat % 8 * 262144 + tailBits b * 4096 + tailBits c * 64 + tailBits d)
        :: ·) := by
  have h₁ : ¬ a < 0x80 := not_lt_of_toNat (Nat.le_trans (by decide) ha)
  have h₂ : ¬ a < 0xC2 := not_lt_of_toNat (Nat.le_trans (by decide) ha)
  have h₃ : ¬ 0xF4 < a := not_lt_of_toNat ha'
  have h₄ : ¬ a < 0xE0 := not_lt_of_toNat (Nat.le_trans (by decide) ha)
  have h₅ : ¬ a < 0xF0 := not_lt_of_toNat ha
  have h₆ : a ≠ 0xED := by
    rintro rfl
    exact absurd ha (by decide)
  rw [readUtf8.eq_def]
  simp [h₁, h₂, h₃, h₄, h₅, h₆, hb, hc, hd]

/-- The code of a character is no surrogate and is in range. -/
theorem toNat_valid (c : Char) : c.toNat < 0xD800 ∨ 0xE000 ≤ c.toNat ∧ c.toNat < 0x110000 := by
  rcases c.valid with h | ⟨h, h'⟩
  · exact .inl h
  · exact .inr ⟨h, h'⟩

private theorem toNat_ofNat {n : Nat} (h : n < 256) : (UInt8.ofNat n).toNat = n := by
  simp [Nat.mod_eq_of_lt h]

private theorem isTail_low (n : Nat) : isTail (UInt8.ofNat (n % 64 + 128)) = true := by
  rw [isTail_iff, toNat_ofNat (by omega)]
  omega

private theorem tailBits_low (n : Nat) : tailBits (UInt8.ofNat (n % 64 + 128)) = n % 64 := by
  rw [tailBits, toNat_ofNat (by omega)]
  omega

/-- The form of a character is read as that character, whatever follows. -/
theorem readUtf8_encodeChar (rule : SurrogateRule) (pos : Nat) (c : Char) (r : List UInt8) :
    ∃ pos', readUtf8 rule pos (String.utf8EncodeChar c ++ r)
      = (readUtf8 rule pos' r).map (c :: ·) := by
  have hc : Char.ofNat c.toNat = c := Char.ofNat_toNat c
  have hvalid := toNat_valid c
  have hval : c.val.toNat = c.toNat := rfl
  rw [String.utf8EncodeChar, hval]
  generalize c.toNat = n at hc hvalid
  split
  case isTrue h =>
    refine ⟨pos + 1, ?_⟩
    have hn : (UInt8.ofNat n).toNat = n := toNat_ofNat (by omega)
    rw [List.singleton_append, readUtf8_one (by omega), hn, hc]
  case isFalse h =>
  split
  case isTrue h' =>
    refine ⟨pos + 2, ?_⟩
    have ha : (UInt8.ofNat (n / 64 % 32 + 192)).toNat = n / 64 + 192 := by
      rw [toNat_ofNat (by omega)]
      omega
    have hcode : (n / 64 + 192) % 32 * 64 + n % 64 = n := by omega
    rw [List.cons_append, List.singleton_append,
      readUtf8_two (by omega) (by omega) (isTail_low n), ha, tailBits_low, hcode, hc]
  case isFalse h' =>
  split
  case isTrue h'' =>
    refine ⟨pos + 3, ?_⟩
    have ha : (UInt8.ofNat (n / 4096 % 16 + 224)).toNat = n / 4096 + 224 := by
      rw [toNat_ofNat (by omega)]
      omega
    have hb : (UInt8.ofNat (n / 64 % 64 + 128)).toNat = n / 64 % 64 + 128 := toNat_ofNat (by omega)
    have hcode : (n / 4096 + 224) % 16 * 4096 + n / 64 % 64 * 64 + n % 64 = n := by omega
    simp only [List.cons_append, List.nil_append]
    rw [readUtf8_three (by omega) (by omega) ?_ ?_ (isTail_low n), ha, tailBits_low, tailBits_low,
      hcode, hc]
    · rw [isSecond_iff, ha, hb]
      omega
    · rw [ha, hb]
      omega
  case isFalse h'' =>
    refine ⟨pos + 4, ?_⟩
    have ha : (UInt8.ofNat (n / 262144 % 8 + 240)).toNat = n / 262144 + 240 := by
      rw [toNat_ofNat (by omega)]
      omega
    have hb : (UInt8.ofNat (n / 4096 % 64 + 128)).toNat = n / 4096 % 64 + 128 :=
      toNat_ofNat (by omega)
    have hcode : (n / 262144 + 240) % 8 * 262144 + n / 4096 % 64 * 4096 + n / 64 % 64 * 64 + n % 64
        = n := by omega
    simp only [List.cons_append, List.nil_append]
    rw [readUtf8_four (by omega) (by omega) ?_ (isTail_low (n / 64)) (isTail_low n), ha,
      tailBits_low, tailBits_low, tailBits_low, hcode, hc]
    rw [isSecond_iff, ha, hb]
    omega

/-- Reading the bytes of a text gives the text back. -/
theorem readUtf8_bytes (rule : SurrogateRule) (pos : Nat) (text : List Char) :
    readUtf8 rule pos (bytes text) = .ok text := by
  induction text generalizing pos with
  | nil => rw [bytes, List.flatMap_nil, readUtf8]
  | cons c text ih =>
    obtain ⟨pos', h⟩ := readUtf8_encodeChar rule pos c (bytes text)
    have hcons : bytes (c :: text) = String.utf8EncodeChar c ++ bytes text := rfl
    rw [hcons, h, ih]
    rfl

end ContextConfig.Encoding
