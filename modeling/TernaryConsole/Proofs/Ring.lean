import Mathlib.Data.ZMod.Basic
import TernaryConsole.Proofs.Codec

/-!
# Proofs.Ring — words are the integers modulo `3^50`

Registers hold values (`Value`), and with the operations of the machine these are a commutative
ring. Taking a value as a residue is an isomorphism from it to the integers modulo `3^50`, so every
law of that ring holds for registers exactly, however often a result was folded back on the way.

Sum, difference, opposite and product are described by what makes them unique, the residue of the
exact result (`isResidue_iff`). A quotient is described by division with remainder towards zero
(`IsQuotient`), and no residue is taken of it.
-/

namespace TernaryConsole

namespace Word

/-! ## Residues -/

/-- A number has one residue among the words, and folding finds it. -/
theorem isResidue_iff (v w : Int) : Field.IsResidue width v w ↔ w = wrap v := by
  rw [wrap_eq_bmod_pow]
  constructor
  · intro h
    exact h.eq_bmod
  · rintro rfl
    exact Field.isResidue_bmod width v

theorem cast_wrap (v : Int) : ((wrap v : Int) : ZMod modulus) = v := by
  have hdvd : (modulus : Int) ∣ wrap v - v := by
    rw [wrap_eq_bmod]
    exact Int.dvd_bmod_sub_self
  exact ((ZMod.intCast_eq_intCast_iff_dvd_sub v (wrap v) modulus).2 hdvd).symm

theorem cast_mul (u v : Int) : ((mul u v : Int) : ZMod modulus) = u * v := by
  rw [mul_eq_bmod, ← wrap_eq_bmod_pow, cast_wrap]
  push_cast
  rfl

/-! ## Values -/

/-- What a register holds. -/
@[ext]
structure Value where
  val : Int
  inRange : InRange val
  deriving DecidableEq

namespace Value

instance : Zero Value := ⟨⟨0, zero_mem⟩⟩

instance : One Value := ⟨⟨1, by constructor <;> decide⟩⟩

instance : Add Value := ⟨fun a b => ⟨add a.val b.val, wrap_mem _⟩⟩

instance : Sub Value := ⟨fun a b => ⟨sub a.val b.val, wrap_mem _⟩⟩

instance : Neg Value := ⟨fun a => ⟨negate a.val, wrap_mem _⟩⟩

instance : Mul Value := ⟨fun a b => ⟨mul a.val b.val, wrap_mem _⟩⟩

/-- Values with the same residue are equal. -/
theorem eq_of_cast_eq {a b : Value} (h : (a.val : ZMod modulus) = b.val) : a = b := by
  have hdvd := (ZMod.intCast_eq_intCast_iff_dvd_sub b.val a.val modulus).1 h.symm
  -- Both are words with the residue of `b`, and there is only one.
  have hresidue : Field.IsResidue width b.val a.val :=
    { low := by
        rw [← Field.largest_eq_half]
        exact a.inRange.1
      high := by
        rw [← Field.largest_eq_half]
        exact a.inRange.2
      congruent := hdvd }
  have hwrap : a.val = wrap b.val := (isResidue_iff b.val a.val).1 hresidue
  rw [wrap_of_mem b.inRange] at hwrap
  exact Value.ext hwrap

section

variable (a b : Value)

theorem cast_zero : (((0 : Value).val : Int) : ZMod modulus) = 0 := Int.cast_zero

theorem cast_one : (((1 : Value).val : Int) : ZMod modulus) = 1 := Int.cast_one

theorem cast_add : (((a + b).val : Int) : ZMod modulus) = a.val + b.val :=
  (cast_wrap (a.val + b.val)).trans (Int.cast_add a.val b.val)

theorem cast_sub : (((a - b).val : Int) : ZMod modulus) = a.val - b.val :=
  (cast_wrap (a.val - b.val)).trans (Int.cast_sub a.val b.val)

theorem cast_neg : (((-a).val : Int) : ZMod modulus) = -a.val :=
  (cast_wrap (-a.val)).trans (Int.cast_neg a.val)

theorem cast_mul : (((a * b).val : Int) : ZMod modulus) = a.val * b.val :=
  Word.cast_mul a.val b.val

end

/-- The laws hold for the residues of values, and values are determined by them. -/
instance : CommRing Value where
  add_assoc a b c := eq_of_cast_eq (by simp only [cast_add, add_assoc])
  zero_add a := eq_of_cast_eq (by simp only [cast_add, cast_zero, zero_add])
  add_zero a := eq_of_cast_eq (by simp only [cast_add, cast_zero, add_zero])
  add_comm a b := eq_of_cast_eq (by simp only [cast_add, add_comm])
  neg_add_cancel a := eq_of_cast_eq (by simp only [cast_add, cast_neg, cast_zero, neg_add_cancel])
  sub_eq_add_neg a b := eq_of_cast_eq (by simp only [cast_sub, cast_add, cast_neg, sub_eq_add_neg])
  mul_assoc a b c := eq_of_cast_eq (by simp only [cast_mul, mul_assoc])
  mul_comm a b := eq_of_cast_eq (by simp only [cast_mul, mul_comm])
  one_mul a := eq_of_cast_eq (by simp only [cast_mul, cast_one, one_mul])
  mul_one a := eq_of_cast_eq (by simp only [cast_mul, cast_one, mul_one])
  zero_mul a := eq_of_cast_eq (by simp only [cast_mul, cast_zero, zero_mul])
  mul_zero a := eq_of_cast_eq (by simp only [cast_mul, cast_zero, mul_zero])
  left_distrib a b c := eq_of_cast_eq (by simp only [cast_mul, cast_add, mul_add])
  right_distrib a b c := eq_of_cast_eq (by simp only [cast_mul, cast_add, add_mul])
  nsmul := nsmulRec
  zsmul := zsmulRec

/-- A value as a residue modulo `3^50`. -/
def residue : Value →+* ZMod modulus where
  toFun a := a.val
  map_zero' := cast_zero
  map_one' := cast_one
  map_add' := cast_add
  map_mul' := cast_mul

theorem residue_bijective : Function.Bijective residue := by
  constructor
  · intro a b h
    exact eq_of_cast_eq h
  · intro z
    refine ⟨⟨wrap z.cast, wrap_mem _⟩, ?_⟩
    exact (cast_wrap z.cast).trans (ZMod.intCast_zmod_cast z)

end Value

/-! ## Quotients -/

/-- Division with remainder towards zero: the remainder is smaller than the divisor and has the
sign of the dividend. -/
def IsQuotient (a b q : Int) : Prop :=
  ∃ r, a = q * b + r ∧ r.natAbs < b.natAbs ∧ (r = 0 ∨ r.sign = a.sign)

/-- Truncating division finds the quotient, and there is no other. -/
theorem isQuotient_iff {a b : Int} (h : b ≠ 0) (q : Int) : IsQuotient a b q ↔ q = a.tdiv b := by
  constructor
  · rintro ⟨r, heq, hsmall, hsign⟩
    have hsplit : r + b * q = a := by
      rw [Int.mul_comm]
      omega
    -- The remainder lies on the side of zero where the dividend lies.
    rcases Int.le_total 0 a with hnonneg | hnonpos
    · have hr : 0 ≤ r := by
        rcases hsign with rfl | hsign
        · exact le_refl 0
        · rwa [← Int.sign_nonneg_iff, hsign, Int.sign_nonneg_iff]
      exact ((Int.tdiv_tmod_unique hnonneg h).2 ⟨hsplit, hr, by omega⟩).1.symm
    · have hr : r ≤ 0 := by
        rcases hsign with rfl | hsign
        · exact le_refl 0
        · rwa [← Int.sign_nonpos_iff, hsign, Int.sign_nonpos_iff]
      exact ((Int.tdiv_tmod_unique' hnonpos h).2 ⟨hsplit, by omega, hr⟩).1.symm
  · rintro rfl
    have hsmall : (a.tmod b).natAbs < b.natAbs := by
      rw [Int.natAbs_tmod]
      exact Nat.mod_lt a.natAbs (Int.natAbs_pos.2 h)
    have hsign : a.tmod b = 0 ∨ (a.tmod b).sign = a.sign := by
      by_cases hdvd : b ∣ a
      · exact Or.inl (Int.tmod_eq_zero_of_dvd hdvd)
      · exact Or.inr (by rw [Int.sign_tmod, if_neg hdvd])
    exact ⟨a.tmod b, (Int.tdiv_mul_add_tmod a b).symm, hsmall, hsign⟩

/-! ## The law -/

/-- What the operations give for three values and for any two numbers as factors. -/
structure Arithmetic (a b c : Value) (u v : Int) : Prop where
  /-- The operations find the one residue of the exact result. -/
  add_iff : ∀ w, Field.IsResidue width (a.val + b.val) w ↔ w = add a.val b.val
  sub_iff : ∀ w, Field.IsResidue width (a.val - b.val) w ↔ w = sub a.val b.val
  negate_iff : ∀ w, Field.IsResidue width (-a.val) w ↔ w = negate a.val
  /-- Factors need not be words. -/
  mul_iff : ∀ w, Field.IsResidue width (u * v) w ↔ w = mul u v
  /-- No intermediate of any operation leaves 128 bits. -/
  checkedAdd : Checked.add a.val b.val = some (add a.val b.val)
  checkedSub : Checked.sub a.val b.val = some (sub a.val b.val)
  checkedNegate : Checked.negate a.val = some (negate a.val)
  checkedMul : Checked.mul u v = some (mul u v)
  checkedDiv : Checked.div a.val b.val = some (div a.val b.val)
  add_comm : add a.val b.val = add b.val a.val
  add_assoc : add (add a.val b.val) c.val = add a.val (add b.val c.val)
  mul_comm : mul a.val b.val = mul b.val a.val
  mul_assoc : mul (mul a.val b.val) c.val = mul a.val (mul b.val c.val)
  mul_add : mul a.val (add b.val c.val) = add (mul a.val b.val) (mul a.val c.val)
  add_mul : mul (add a.val b.val) c.val = add (mul a.val c.val) (mul b.val c.val)
  /-- With these operations the values are the ring of residues. -/
  residues : modulus = 3 ^ 50 ∧ Function.Bijective Value.residue
  /-- The quotient is the one of division with remainder, in exact integers. -/
  div_iff : b.val ≠ 0 → ∀ q, IsQuotient a.val b.val q ↔ q = div a.val b.val
  /-- A quotient is a word before it is folded. -/
  div_exact : b.val ≠ 0 → div a.val b.val = a.val.tdiv b.val ∧ InRange (a.val.tdiv b.val)

/-- Register arithmetic is arithmetic in the ring of integers modulo `3^50`, with division towards
zero in exact integers. -/
theorem arithmetic_values (a b c : Value) (u v : Int) : Arithmetic a b c u v := by
  have hdiv : b.val ≠ 0 → div a.val b.val = a.val.tdiv b.val := by
    intro hb
    rw [div_of_mem a.inRange, if_neg hb]
  exact
    { add_iff := isResidue_iff (a.val + b.val)
      sub_iff := isResidue_iff (a.val - b.val)
      negate_iff := isResidue_iff (-a.val)
      mul_iff := by
        intro w
        rw [isResidue_iff, mul_eq_bmod, ← wrap_eq_bmod_pow]
      checkedAdd := Checked.add_eq_some a.inRange b.inRange
      checkedSub := Checked.sub_eq_some a.inRange b.inRange
      checkedNegate := Checked.negate_eq_some a.inRange
      checkedMul := Checked.mul_eq_some u v
      checkedDiv := Checked.div_eq_some a.inRange b.val
      add_comm := congrArg Value.val (add_comm a b)
      add_assoc := congrArg Value.val (add_assoc a b c)
      mul_comm := congrArg Value.val (mul_comm a b)
      mul_assoc := congrArg Value.val (mul_assoc a b c)
      mul_add := congrArg Value.val (mul_add a b c)
      add_mul := congrArg Value.val (add_mul a b c)
      residues := ⟨modulus_eq_pow, Value.residue_bijective⟩
      div_iff := by
        intro hb q
        rw [isQuotient_iff hb, hdiv hb]
      div_exact := fun hb => ⟨hdiv hb, tdiv_mem a.inRange b.val⟩ }

end Word

end TernaryConsole
