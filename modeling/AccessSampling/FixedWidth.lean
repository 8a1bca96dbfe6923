/-!
# Integers of a fixed width

Statistics and hit counts live in machine words. Where a value leaves its word, one of three rules
applies, and each has its name here: it wraps to the signed reading of its low bits
(`wrapSigned`), it is clamped to the signed range (`clampSigned`), or a counter stays at its
largest value (`saturatingSucc`, `saturatingAdd`).
-/

namespace AccessSampling

/-- The signed reading of the low bits of an integer. -/
def wrapSigned (bits : Nat) (z : Int) : Int := Int.bmod z (1 <<< bits)

/-- The signed value of some bits that lies nearest to an integer. -/
def clampSigned (bits : Nat) (z : Int) : Int :=
  let half : Nat := 1 <<< (bits - 1)
  max (-half) (min z (half - 1))

/-- The next count; the largest count of 32 bits stays as it is. -/
def saturatingSucc (n : UInt32) : UInt32 := if n = 0xffffffff then n else n + 1

/-- The sum of a word and an integer, kept within the word's range at both ends. -/
def saturatingAdd (n : UInt64) (z : Int) : UInt64 :=
  UInt64.ofNat (min (n.toNat + z).toNat 0xffffffffffffffff)

/-- The signed reading of a value in the signed range is the value. -/
theorem wrapSigned_of_range {bits : Nat} {z : Int} (hlow : -(1 <<< bits : Nat) ≤ 2 * z)
    (hhigh : 2 * z < (1 <<< bits : Nat)) : wrapSigned bits z = z :=
  Int.bmod_eq_of_le_mul_two (by omega) (by omega)

/-- A value in the signed range is not clamped. -/
theorem clampSigned_of_range {bits : Nat} {z : Int} (hlow : -(1 <<< (bits - 1) : Nat) ≤ z)
    (hhigh : z < (1 <<< (bits - 1) : Nat)) : clampSigned bits z = z := by
  rw [clampSigned, Int.min_eq_left (Int.le_sub_one_of_lt hhigh), Int.max_eq_right hlow]

theorem toNat_saturatingSucc (n : UInt32) :
    (saturatingSucc n).toNat = min (n.toNat + 1) 0xffffffff := by
  have hn := n.toNat_lt
  by_cases h : n = 0xffffffff
  · subst h
    rfl
  · have h' : n.toNat ≠ 4294967295 := fun e => h (UInt32.toNat_inj.1 e)
    simp only [saturatingSucc, if_neg h, UInt32.toNat_add, UInt32.reduceToNat]
    omega

theorem toNat_saturatingAdd (n : UInt64) (z : Int) :
    (saturatingAdd n z).toNat = min (n.toNat + z).toNat 0xffffffffffffffff := by
  simp only [saturatingAdd, UInt64.toNat_ofNat']
  omega

/-- A sum within the range of the word is exact. -/
theorem toNat_saturatingAdd_of_lt {n : UInt64} {z : Int}
    (h : (n.toNat + z).toNat < 0x10000000000000000) :
    (saturatingAdd n z).toNat = (n.toNat + z).toNat := by
  rw [toNat_saturatingAdd]
  omega

/-- The word of an integer in its range reads as that integer. -/
theorem toNat_ofInt_of_range {z : Int} (h0 : 0 ≤ z) (h : z < 0x10000000000000000) :
    ((UInt64.ofInt z).toNat : Int) = z := by
  rw [UInt64.ofInt, UInt64.toNat_ofNat']
  omega

theorem saturatingSucc_pos (n : UInt32) : 0 < (saturatingSucc n).toNat := by
  rw [toNat_saturatingSucc]
  omega

end AccessSampling
