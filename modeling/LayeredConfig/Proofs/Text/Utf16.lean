import LayeredConfig.Proofs.Outcome
import LayeredConfig.Text.Utf16

/-! Encoding in 16-bit units and back. The units of a character are decoded to that character, whatever
units follow; so every text is decoded from its encoding. And nothing else is decoded: units of 16 bits that
are decoded at all are the encoding of what they are decoded to. -/

namespace LayeredConfig.Utf16

/-- The number of a character is no surrogate, and in range. -/
theorem toNat_valid (c : Char) : c.toNat < 0xD800 ∨ 0xDFFF < c.toNat ∧ c.toNat < 0x110000 :=
  c.valid

theorem units_of_lt {c : Char} (h : c.toNat < 0x10000) : units c = [c.toNat] :=
  if_pos h

theorem units_of_le {c : Char} (h : 0x10000 ≤ c.toNat) :
    units c = [0xD800 + (c.toNat - 0x10000) / 0x400, 0xDC00 + (c.toNat - 0x10000) % 0x400] :=
  if_neg (Nat.not_lt.2 h)

theorem units_ne_nil (c : Char) : units c ≠ [] := by
  rcases Nat.lt_or_ge c.toNat 0x10000 with hone | htwo
  · simp [units_of_lt hone]
  · simp [units_of_le htwo]

theorem units_lt {c : Char} {unit : Nat} (h : unit ∈ units c) : unit < 0x10000 := by
  have hvalid := toNat_valid c
  rcases Nat.lt_or_ge c.toNat 0x10000 with hone | htwo
  · rw [units_of_lt hone, List.mem_singleton] at h
    omega
  · rw [units_of_le htwo, List.mem_cons, List.mem_singleton] at h
    omega

theorem decode_single {unit : Nat} (hhigh : isHigh unit = false) (hlow : isLow unit = false)
    (rest : List Nat) : decode (unit :: rest) = (decode rest).map (Char.ofNat unit :: ·) := by
  rw [decode.eq_def]
  simp only [hhigh, hlow, Bool.false_eq_true, ↓reduceIte]

theorem decode_pair {high low : Nat} (hhigh : isHigh high = true) (hlow : isLow low = true)
    (rest : List Nat) :
    decode (high :: low :: rest) =
      (decode rest).map (Char.ofNat (0x10000 + (high - 0xD800) * 0x400 + (low - 0xDC00)) :: ·) := by
  rw [decode, if_pos hhigh, if_pos hlow]

theorem decode_units_append (c : Char) (rest : List Nat) :
    decode (units c ++ rest) = (decode rest).map (c :: ·) := by
  have hvalid := toNat_valid c
  rcases Nat.lt_or_ge c.toNat 0x10000 with hone | htwo
  · have hhigh : isHigh c.toNat = false := by simp [isHigh]; omega
    have hlow : isLow c.toNat = false := by simp [isLow]; omega
    rw [units_of_lt hone, List.singleton_append, decode_single hhigh hlow, Char.ofNat_toNat]
  · have hhigh : isHigh (0xD800 + (c.toNat - 0x10000) / 0x400) = true := by simp [isHigh]; omega
    have hlow : isLow (0xDC00 + (c.toNat - 0x10000) % 0x400) = true := by simp [isLow]; omega
    have hnumber : 0x10000 + (0xD800 + (c.toNat - 0x10000) / 0x400 - 0xD800) * 0x400 +
        (0xDC00 + (c.toNat - 0x10000) % 0x400 - 0xDC00) = c.toNat := by omega
    rw [units_of_le htwo, List.cons_append, List.singleton_append, decode_pair hhigh hlow, hnumber,
      Char.ofNat_toNat]

theorem decode_encode (t : Text) : decode (encode t) = .ok t := by
  induction t with
  | nil => rfl
  | cons c t ih =>
      rw [encode, List.flatMap_cons, decode_units_append]
      exact congrArg (Except.map (c :: ·)) ih

theorem toNat_ofNat {n : Nat} (h : n < 0xD800 ∨ 0xDFFF < n ∧ n < 0x110000) : (Char.ofNat n).toNat = n := by
  rw [Char.ofNat, dif_pos h]
  rfl

theorem units_single {unit : Nat} (hhigh : isHigh unit = false) (hlow : isLow unit = false)
    (hbound : unit < 0x10000) : units (Char.ofNat unit) = [unit] := by
  have hvalid : unit < 0xD800 ∨ 0xDFFF < unit ∧ unit < 0x110000 := by
    simp [isHigh, isLow] at hhigh hlow
    omega
  rw [units_of_lt (by rwa [toNat_ofNat hvalid]), toNat_ofNat hvalid]

theorem units_pair {high low : Nat} (hhigh : isHigh high = true) (hlow : isLow low = true) :
    units (Char.ofNat (0x10000 + (high - 0xD800) * 0x400 + (low - 0xDC00))) = [high, low] := by
  simp [isHigh, isLow] at hhigh hlow
  have hvalid : 0x10000 + (high - 0xD800) * 0x400 + (low - 0xDC00) < 0xD800 ∨
      0xDFFF < 0x10000 + (high - 0xD800) * 0x400 + (low - 0xDC00) ∧
        0x10000 + (high - 0xD800) * 0x400 + (low - 0xDC00) < 0x110000 := by omega
  have hhighest : 0xD800 + (0x10000 + (high - 0xD800) * 0x400 + (low - 0xDC00) - 0x10000) / 0x400 = high := by
    omega
  have hlowest : 0xDC00 + (0x10000 + (high - 0xD800) * 0x400 + (low - 0xDC00) - 0x10000) % 0x400 = low := by
    omega
  rw [units_of_le (by rw [toNat_ofNat hvalid]; omega), toNat_ofNat hvalid, hhighest, hlowest]

/-- What can be decoded is the encoding of what it is decoded to. -/
theorem eq_encode_of_decode {units : List Nat} {t : Text} (hbound : ∀ unit ∈ units, unit < 0x10000)
    (h : decode units = .ok t) : units = encode t := by
  fun_induction decode units generalizing t with
  | case1 =>
      cases h
      rfl
  | case2 high hhigh low rest hlow ih =>
      obtain ⟨after, hafter, rfl⟩ := ok_of_map_eq_ok h
      have hrest := ih (fun unit hunit => hbound unit (List.mem_cons_of_mem _ (List.mem_cons_of_mem _ hunit)))
        hafter
      rw [encode, List.flatMap_cons, units_pair hhigh hlow]
      exact congrArg (fun rest => high :: low :: rest) hrest
  | case3 | case4 | case5 => cases h
  | case6 unit rest hhigh hlow ih =>
      obtain ⟨after, hafter, rfl⟩ := ok_of_map_eq_ok h
      have hrest := ih (fun unit hunit => hbound unit (List.mem_cons_of_mem _ hunit)) hafter
      rw [encode, List.flatMap_cons, units_single (Bool.eq_false_iff.2 hhigh) (Bool.eq_false_iff.2 hlow)
        (hbound unit List.mem_cons_self)]
      exact congrArg (unit :: ·) hrest

end LayeredConfig.Utf16
