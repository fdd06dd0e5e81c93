import Aegis.Lib.Bytes
import Mathlib.Data.List.GetD
import Mathlib.Data.Nat.Bitwise

/-! Comparing octet strings by folding the differences of their octets together: where one of them
is over it counts as zeros, so a comparison cannot tell a string from itself with zeros behind. -/
namespace Text

/-- What is folded together is zero when each part is. -/
theorem foldl_or_eq_zero {ι : Type} (f : ι → UInt8) (is : List ι) (start : UInt8) :
    is.foldl (fun diff i => diff ||| f i) start = 0 ↔ start = 0 ∧ ∀ i ∈ is, f i = 0 := by
  induction is generalizing start with
  | nil => simp
  | cons i is ih =>
    rw [List.foldl_cons, ih, UInt8.or_eq_zero_iff, List.forall_mem_cons]
    exact and_assoc

section Zeros

variable {a b : Bytes}

theorem getD_append_zeros (b : Bytes) (k i : ℕ) :
    (b ++ List.replicate k 0).getD i 0 = b.getD i 0 := by
  by_cases hi : i < b.length
  · exact List.getD_append b _ 0 i hi
  · rw [List.getD_append_right b _ 0 i (by omega), List.getD_eq_default b 0 (by omega),
      List.getD_eq_getElem?_getD, List.getElem?_getD_replicate_default_eq]

/-- The longer one of two strings that do not differ is the shorter one with zeros behind it. -/
theorem eq_append_zeros (hle : b.length ≤ a.length)
    (heq : ∀ i < a.length, a.getD i 0 = b.getD i 0) :
    a = b ++ List.replicate (a.length - b.length) 0 := by
  apply List.ext_getElem
  · rw [List.length_append, List.length_replicate]
    omega
  · intro i ha hb
    have hpadded := getD_append_zeros b (a.length - b.length) i
    rw [← heq i ha, List.getD_eq_getElem _ 0 hb, List.getD_eq_getElem _ 0 ha] at hpadded
    exact hpadded.symm

/-- No octet differs exactly where one string is the other with zeros behind it. -/
theorem getD_eq_iff : (∀ i < max a.length b.length, a.getD i 0 = b.getD i 0) ↔
    ∃ k, a = b ++ List.replicate k 0 ∨ b = a ++ List.replicate k 0 := by
  constructor
  · intro heq
    rcases Nat.le_total b.length a.length with hle | hle
    · exact ⟨_, .inl (eq_append_zeros hle fun i hi => heq i (by omega))⟩
    · exact ⟨_, .inr (eq_append_zeros hle fun i hi => (heq i (by omega)).symm)⟩
  · rintro ⟨k, h | h⟩ i -
    · rw [h, getD_append_zeros]
    · rw [h, getD_append_zeros]

end Zeros

/-- Lengths that differ by a whole number of blocks of 256 have no difference in their low byte. -/
theorem low_byte_xor_eq_zero (m n : ℕ) : UInt8.ofNat (m ^^^ n) = 0 ↔ m % 256 = n % 256 := by
  rw [← UInt8.toNat_inj, UInt8.toNat_ofNat', Nat.xor_mod_two_pow]
  exact Nat.xor_eq_zero_iff

end Text
