import Mathlib.Tactic.IntervalCases
import Coursework.Text.Utf8

namespace Coursework.Utf8

variable {position start seen missing bits k x : Nat} {lead low high : UInt8} {o : Open}
  {rest : Bytes}

theorem toNat_ofNat_of_lt (h : k < 256) : (UInt8.ofNat k).toNat = k := by
  rw [UInt8.toNat_ofNat']
  exact Nat.mod_eq_of_lt h

theorem opening_two (h2 : 2 ≤ k) (h : k < 32) : opening position (UInt8.ofNat (0xC0 + k)) =
    some ⟨UInt8.ofNat (0xC0 + k), position, 1, 1, 0x80, 0xBF, k⟩ := by
  interval_cases k <;> rfl

theorem opening_three (h : k < 16) : opening position (UInt8.ofNat (0xE0 + k)) =
    some ⟨UInt8.ofNat (0xE0 + k), position, 1, 2, if k = 0 then 0xA0 else 0x80,
      if k = 13 then 0x9F else 0xBF, k⟩ := by
  interval_cases k <;> rfl

theorem opening_four (h : k < 5) : opening position (UInt8.ofNat (0xF0 + k)) =
    some ⟨UInt8.ofNat (0xF0 + k), position, 1, 3, if k = 0 then 0x90 else 0x80,
      if k = 4 then 0x8F else 0xBF, k⟩ := by
  interval_cases k <;> rfl

theorem decodeFrom_one (h : k < 0x80) : decodeFrom position none (UInt8.ofNat k :: rest) =
    (Char.ofNat k :: ·) <$> decodeFrom (position + 1) none rest := by
  have hk := toNat_ofNat_of_lt (show k < 256 by omega)
  have hlt : UInt8.ofNat k < 0x80 := by
    rw [UInt8.lt_iff_toNat_lt, hk]
    exact h
  rw [decodeFrom, if_pos hlt, hk]

theorem decodeFrom_opening (h : 0x80 ≤ k) (hk : k < 256)
    (ho : opening position (UInt8.ofNat k) = some o) :
    decodeFrom position none (UInt8.ofNat k :: rest) =
      decodeFrom (position + 1) (some o) rest := by
  have hlt : ¬UInt8.ofNat k < 0x80 := by
    rw [UInt8.lt_iff_toNat_lt, toNat_ofNat_of_lt hk]
    exact Nat.not_lt.mpr h
  rw [decodeFrom, if_neg hlt, ho]

theorem decodeFrom_last (hx : x < 64) (hlow : low.toNat ≤ 0x80 + x)
    (hhigh : 0x80 + x ≤ high.toNat) :
    decodeFrom position (some ⟨lead, start, seen, 1, low, high, bits⟩)
      (UInt8.ofNat (0x80 + x) :: rest) =
        (Char.ofNat (bits * 64 + x) :: ·) <$> decodeFrom (position + 1) none rest := by
  have hb := toNat_ofNat_of_lt (show 0x80 + x < 256 by omega)
  have hin : low ≤ UInt8.ofNat (0x80 + x) ∧ UInt8.ofNat (0x80 + x) ≤ high := by
    rw [UInt8.le_iff_toNat_le, UInt8.le_iff_toNat_le, hb]
    exact ⟨hlow, hhigh⟩
  rw [decodeFrom, if_pos hin]
  simp only [Open.add, hb, Nat.add_sub_cancel_left, Nat.sub_self, if_true]

theorem decodeFrom_more (hx : x < 64) (hlow : low.toNat ≤ 0x80 + x)
    (hhigh : 0x80 + x ≤ high.toNat) :
    decodeFrom position (some ⟨lead, start, seen, missing + 2, low, high, bits⟩)
      (UInt8.ofNat (0x80 + x) :: rest) =
        decodeFrom (position + 1)
          (some ⟨lead, start, seen + 1, missing + 1, 0x80, 0xBF, bits * 64 + x⟩) rest := by
  have hb := toNat_ofNat_of_lt (show 0x80 + x < 256 by omega)
  have hin : low ≤ UInt8.ofNat (0x80 + x) ∧ UInt8.ofNat (0x80 + x) ≤ high := by
    rw [UInt8.le_iff_toNat_le, UInt8.le_iff_toNat_le, hb]
    exact ⟨hlow, hhigh⟩
  rw [decodeFrom, if_pos hin]
  simp only [Open.add, hb, Nat.add_sub_cancel_left, Nat.add_succ_sub_one]
  rw [if_neg (Nat.succ_ne_zero missing)]

theorem decodeFrom_two {n : Nat} (h : 0x80 ≤ n) (h' : n < 0x800) :
    decodeFrom position none (UInt8.ofNat (0xC0 + n / 64) :: UInt8.ofNat (0x80 + n % 64) :: rest) =
      (Char.ofNat n :: ·) <$> decodeFrom (position + 1 + 1) none rest := by
  rw [decodeFrom_opening (by omega) (by omega) (opening_two (by omega) (by omega))]
  have hx : n % 64 < 64 := Nat.mod_lt _ (by decide)
  have hlow : (0x80 : UInt8).toNat ≤ 0x80 + n % 64 := Nat.le_add_right _ _
  have hhigh : 0x80 + n % 64 ≤ (0xBF : UInt8).toNat := by
    change _ ≤ 0xBF
    omega
  rw [decodeFrom_last hx hlow hhigh, Nat.div_add_mod']

theorem decodeFrom_three {n : Nat} (h : 0x800 ≤ n) (h' : n < 0x10000)
    (hs : n < 0xD800 ∨ 0xDFFF < n) :
    decodeFrom position none (UInt8.ofNat (0xE0 + n / 4096) :: UInt8.ofNat (0x80 + n / 64 % 64) ::
      UInt8.ofNat (0x80 + n % 64) :: rest) =
        (Char.ofNat n :: ·) <$> decodeFrom (position + 1 + 1 + 1) none rest := by
  rw [decodeFrom_opening (by omega) (by omega) (opening_three (by omega))]
  have hx : n / 64 % 64 < 64 := Nat.mod_lt _ (by decide)
  have hx' : n % 64 < 64 := Nat.mod_lt _ (by decide)
  have hlow : (if n / 4096 = 0 then (0xA0 : UInt8) else 0x80).toNat ≤ 0x80 + n / 64 % 64 := by
    split
    · change 0xA0 ≤ _
      omega
    · exact Nat.le_add_right _ _
  have hhigh : 0x80 + n / 64 % 64 ≤ (if n / 4096 = 13 then (0x9F : UInt8) else 0xBF).toNat := by
    split
    · change _ ≤ 0x9F
      omega
    · change _ ≤ 0xBF
      omega
  have hhigh' : 0x80 + n % 64 ≤ (0xBF : UInt8).toNat := by
    change _ ≤ 0xBF
    omega
  have hn : (n / 4096 * 64 + n / 64 % 64) * 64 + n % 64 = n := by omega
  rw [decodeFrom_more hx hlow hhigh, decodeFrom_last hx' (Nat.le_add_right _ _) hhigh', hn]

theorem decodeFrom_four {n : Nat} (h : 0x10000 ≤ n) (h' : n < 0x110000) :
    decodeFrom position none (UInt8.ofNat (0xF0 + n / 262144) ::
      UInt8.ofNat (0x80 + n / 4096 % 64) :: UInt8.ofNat (0x80 + n / 64 % 64) ::
        UInt8.ofNat (0x80 + n % 64) :: rest) =
          (Char.ofNat n :: ·) <$> decodeFrom (position + 1 + 1 + 1 + 1) none rest := by
  rw [decodeFrom_opening (by omega) (by omega) (opening_four (by omega))]
  have hx : n / 4096 % 64 < 64 := Nat.mod_lt _ (by decide)
  have hx' : n / 64 % 64 < 64 := Nat.mod_lt _ (by decide)
  have hx'' : n % 64 < 64 := Nat.mod_lt _ (by decide)
  have hlow : (if n / 262144 = 0 then (0x90 : UInt8) else 0x80).toNat ≤ 0x80 + n / 4096 % 64 := by
    split
    · change 0x90 ≤ _
      omega
    · exact Nat.le_add_right _ _
  have hhigh : 0x80 + n / 4096 % 64 ≤ (if n / 262144 = 4 then (0x8F : UInt8) else 0xBF).toNat := by
    split
    · change _ ≤ 0x8F
      omega
    · change _ ≤ 0xBF
      omega
  have hlast : ∀ x, x < 64 → 0x80 + x ≤ (0xBF : UInt8).toNat := by
    intro x hx
    change _ ≤ 0xBF
    omega
  have hn : ((n / 262144 * 64 + n / 4096 % 64) * 64 + n / 64 % 64) * 64 + n % 64 = n := by omega
  rw [decodeFrom_more hx hlow hhigh, decodeFrom_more hx' (Nat.le_add_right _ _) (hlast _ hx'),
    decodeFrom_last hx'' (Nat.le_add_right _ _) (hlast _ hx''), hn]

theorem decodeFrom_encodeChar (c : Char) (position : Nat) (rest : Bytes) :
    ∃ next, decodeFrom position none (encodeChar c ++ rest) =
      (c :: ·) <$> decodeFrom next none rest := by
  have hvalid : c.toNat < 0xD800 ∨ 0xDFFF < c.toNat ∧ c.toNat < 0x110000 := c.valid
  have hc : Char.ofNat c.toNat = c := Char.ofNat_toNat c
  simp only [encodeChar, Nat.div_one]
  split
  · next h1 =>
    refine ⟨position + 1, (decodeFrom_one h1).trans ?_⟩
    rw [hc]
    rfl
  · split
    · next h1 h2 =>
      refine ⟨position + 1 + 1, (decodeFrom_two (Nat.not_lt.mp h1) h2).trans ?_⟩
      rw [hc]
      rfl
    · split
      · next h1 h2 h3 =>
        refine ⟨position + 1 + 1 + 1, ?_⟩
        apply (decodeFrom_three (Nat.not_lt.mp h2) h3 (hvalid.imp_right And.left)).trans
        rw [hc]
        rfl
      · next h1 h2 h3 =>
        refine ⟨position + 1 + 1 + 1 + 1, ?_⟩
        apply (decodeFrom_four (Nat.not_lt.mp h3) (by omega)).trans
        rw [hc]
        rfl

theorem decodeFrom_encode (s : Text) (position : Nat) :
    decodeFrom position none (encode s) = .ok s := by
  induction s generalizing position with
  | nil => rfl
  | cons c s ih =>
    obtain ⟨next, h⟩ := decodeFrom_encodeChar c position (encode s)
    rw [ih next] at h
    exact h

theorem decode_encode (s : Text) : decode (encode s) = .ok s := decodeFrom_encode s 0

end Coursework.Utf8
