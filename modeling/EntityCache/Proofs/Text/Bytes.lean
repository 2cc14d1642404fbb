import Mathlib.Data.String.Basic
import Mathlib.Order.Defs.LinearOrder

/-!
# The order of strings is the order of their bytes

Strings are compared character by character, and what lists them in order by bytes compares their
encodings.  Both come to the same (`lt_iff_bytes_lt`): of two characters the smaller one has a
smaller byte at the first place where their encodings differ, so nothing that follows matters
(`encoded_lt`).
-/

namespace EntityCache

namespace Text

/-- The bytes of a string. -/
def bytes (s : String) : List UInt8 := s.toUTF8.data.toList

theorem bytes_eq_flatMap (s : String) : bytes s = s.toList.flatMap String.utf8EncodeChar := by
  have hencode : s.toByteArray = s.toList.utf8Encode := String.utf8Encode_toList.symm
  show s.toByteArray.data.toList = _
  rw [hencode, List.utf8Encode, List.data_toByteArray]

/-- Bytes are ordered as their numbers. -/
theorem ofNat_lt_ofNat {m n : Nat} (hm : m < 256) (hn : n < 256) :
    UInt8.ofNat m < UInt8.ofNat n ↔ m < n := by
  rw [UInt8.lt_iff_toNat_lt, UInt8.toNat_ofNat_of_lt' hm, UInt8.toNat_ofNat_of_lt' hn]

theorem ofNat_eq_ofNat {m n : Nat} (hm : m < 256) (hn : n < 256) :
    UInt8.ofNat m = UInt8.ofNat n ↔ m = n := by
  rw [← UInt8.toNat_inj, UInt8.toNat_ofNat_of_lt' hm, UInt8.toNat_ofNat_of_lt' hn]

theorem toNat_val_lt (c : Char) : c.val.toNat < 0x110000 := by
  have hvalid := c.valid
  simp only [UInt32.isValidChar, Nat.isValidChar] at hvalid
  omega

/-- Of two numbers the smaller one has a smaller digit at the first place, of four to the base 64,
where they differ. -/
theorem digits_of_lt {m n : Nat} (h : m < n) :
    m / 262144 < n / 262144 ∨ m / 262144 = n / 262144 ∧
      (m / 4096 % 64 < n / 4096 % 64 ∨ m / 4096 % 64 = n / 4096 % 64 ∧
        (m / 64 % 64 < n / 64 % 64 ∨ m / 64 % 64 = n / 64 % 64 ∧ m % 64 < n % 64)) := by
  omega

/-- A smaller character is encoded before a greater one, whatever follows. -/
theorem encoded_lt {c d : Char} (h : c < d) (s t : List UInt8) :
    String.utf8EncodeChar c ++ s < String.utf8EncodeChar d ++ t := by
  have hlt : c.val.toNat < d.val.toNat := h
  have hc := toNat_val_lt c
  have hd := toNat_val_lt d
  have hdigits := digits_of_lt hlt
  have hfirst (k : Nat) (hk : k < 0x110000) : k / 262144 % 8 = k / 262144 := by omega
  rw [← hfirst _ hc, ← hfirst _ hd] at hdigits
  simp only [String.utf8EncodeChar]
  generalize c.val.toNat = m at *
  generalize d.val.toNat = n at *
  -- the lengths of the two encodings are told apart by their first bytes
  split_ifs <;>
    simp (disch := omega) only [List.cons_append, List.nil_append, List.cons_lt_cons_iff,
      ofNat_lt_ofNat, ofNat_eq_ofNat] <;>
    omega

/-- Bytes before the two that are compared do not matter. -/
theorem append_lt_append_left_iff (l s t : List UInt8) : l ++ s < l ++ t ↔ s < t := by
  induction l with
  | nil => rfl
  | cons b l ih => simp [ih]

/-- Texts are ordered as their bytes. -/
theorem flatMap_lt_of_lt {cs ds : List Char} (h : cs < ds) :
    cs.flatMap String.utf8EncodeChar < ds.flatMap String.utf8EncodeChar := by
  induction cs generalizing ds with
  | nil =>
    cases ds with
    | nil => exact absurd h (List.lt_irrefl _)
    | cons d ds =>
      obtain ⟨b, rest, hb⟩ := List.exists_cons_of_ne_nil (String.utf8EncodeChar_ne_nil (c := d))
      rw [List.flatMap_nil, List.flatMap_cons, hb, List.cons_append]
      exact List.nil_lt_cons _ _
  | cons c cs ih =>
    cases ds with
    | nil => exact absurd h (List.not_lt_nil _)
    | cons d ds =>
      rw [List.flatMap_cons, List.flatMap_cons]
      -- the first characters differ, and so do their bytes, or the rest decides
      rcases List.cons_lt_cons_iff.1 h with hlt | ⟨rfl, hrest⟩
      · exact encoded_lt hlt _ _
      · rw [append_lt_append_left_iff]
        exact ih hrest

/-- Strings are in the order of their bytes. -/
theorem lt_iff_bytes_lt {a b : String} : a < b ↔ bytes a < bytes b := by
  have hlt {a b : String} (h : a < b) : bytes a < bytes b := by
    rw [bytes_eq_flatMap, bytes_eq_flatMap]
    exact flatMap_lt_of_lt (String.lt_iff_toList_lt.1 h)
  refine ⟨hlt, fun h => ?_⟩
  by_contra hnot
  rcases eq_or_lt_of_le (not_lt.1 hnot) with rfl | hgt
  · exact List.lt_irrefl _ h
  · exact List.lt_asymm h (hlt hgt)

end Text

end EntityCache
