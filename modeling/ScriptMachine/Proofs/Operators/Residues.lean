import Mathlib.Data.Int.Bitwise
import Mathlib.Data.Int.ModEq
import ScriptMachine.Machine.Operators

/-!
# Integers of a kind

Integer operators work on words of 64 bits and narrow the result to a kind. Here is what that comes to
for the integers that the words stand for.

* `Kind.width`, `Kind.wider`, `Kind.Holds`: the integer kinds.
* `Value.integer`: the integer that a value stands for; `Value.Residue`: a value is the one of a kind
  that is congruent to an integer, and `Residue.unique` says that there is no other.
* `Value.Word`, `Value.residue_ofInt64`: from values to words and back.
* `toInt_and`, `toInt_powInt64`, `toInt_shiftRight` and companions: operations on words.
-/

namespace ScriptMachine

namespace Kind

/-- The number of bits of an integer kind. -/
def width : Kind → Nat
  | .byte => 8
  | .int32 => 32
  | _ => 64

/-- The wider of two integer kinds. -/
def wider (k l : Kind) : Kind := if l.rank.getD 0 ≤ k.rank.getD 0 then k else l

/-- The integers that an integer kind has. -/
def Holds (k : Kind) (n : Int) : Prop :=
  match k with
  | .byte => 0 ≤ n ∧ n < 2 ^ 8
  | .int32 => -2 ^ 31 ≤ n ∧ n < 2 ^ 31
  | _ => -2 ^ 63 ≤ n ∧ n < 2 ^ 63

variable {k l : Kind}

theorem isInteger_wider (hk : k.isInteger = true) (hl : l.isInteger = true) :
    (wider k l).isInteger = true := by
  unfold wider
  split <;> assumption

theorem wider_self (k : Kind) : wider k k = k := if_pos (Nat.le_refl _)

theorem wider_comm (hk : k.isInteger = true) (hl : l.isInteger = true) : wider k l = wider l k := by
  cases k <;> cases hk <;> cases l <;> cases hl <;> rfl

/-- A wider kind has all integers of a narrower one. -/
theorem holds_wider_left (hk : k.isInteger = true) (hl : l.isInteger = true) {n : Int}
    (h : k.Holds n) : (wider k l).Holds n := by
  cases k <;> cases hk <;> cases l <;> cases hl <;> simp only [wider, rank, Holds] at h ⊢ <;>
    first | exact h | (simp; omega)

theorem holds_wider_right (hk : k.isInteger = true) (hl : l.isInteger = true) {n : Int}
    (h : l.Holds n) : (wider k l).Holds n := by
  rw [wider_comm hk hl]
  exact holds_wider_left hl hk h

end Kind

/-! ### Values and words -/

namespace Value

variable {v w : Value} {k : Kind} {n : Int} {x : Int64}

/-- The integer that a value of an integer kind stands for. -/
def integer (v : Value) : Int :=
  match v.unwrapped with
  | .byte n => n.toNat
  | .int32 n => n.toInt
  | .int n | .int64 n => n.toInt
  | _ => 0

/-- The value is the one of an integer kind that is congruent to an integer, modulo two to the width of
the kind. -/
structure Residue (v : Value) (k : Kind) (n : Int) : Prop where
  kind_eq : v.kind = k
  bare : v.unwrapped = v
  congruent : v.integer ≡ n [ZMOD 2 ^ k.width]

/-- The word behind a value of an integer kind. -/
structure Word (v : Value) (x : Int64) : Prop where
  isInteger : v.kind.isInteger = true
  read : v.toInt64 = .ok x
  toInt_eq : x.toInt = v.integer
  unwrapped_eq : v.unwrapped = ofInt64 v.kind x
  holds : v.kind.Holds x.toInt

/-- A value of an integer kind is a word that the kind has. -/
theorem exists_word (h : v.kind.isInteger = true) : ∃ x, v.Word x := by
  suffices hword : ∃ x : Int64, v.toInt64 = .ok x ∧ x.toInt = v.integer ∧
      v.unwrapped = ofInt64 v.kind x ∧ v.kind.Holds x.toInt by
    obtain ⟨x, hread, hint, hbare, hholds⟩ := hword
    exact ⟨x, h, hread, hint, hbare, hholds⟩
  rw [kind] at h ⊢
  unfold toInt64 integer
  cases hv : v.unwrapped with
  | byte n =>
    have hlt := n.toNat_lt
    refine ⟨Int64.ofNat n.toNat, rfl, toInt_ofNat_byte n, ?_, ?_⟩
    · exact (ofInt64_byte n).symm
    · rw [toInt_ofNat_byte]
      simp only [Kind.Holds]
      omega
  | int32 n =>
    refine ⟨n.toInt64, rfl, Int32.toInt_toInt64 n, ?_, ?_⟩
    · show _ = Value.int32 n.toInt64.toInt32
      rw [Int32.toInt32_toInt64]
    · rw [Int32.toInt_toInt64]
      exact ⟨n.le_toInt, n.toInt_lt⟩
  | int n | int64 n => exact ⟨n, rfl, rfl, rfl, n.le_toInt, n.toInt_lt⟩
  | _ =>
    rw [hv] at h
    cases h

theorem kind_ofInt64 (hk : k.isInteger = true) (x : Int64) : (ofInt64 k x).kind = k := by
  cases k <;> cases hk <;> rfl

/-- A word, as a value of an integer kind that has it, is read back. -/
theorem toInt64_ofInt64 (hk : k.isInteger = true) (hx : k.Holds x.toInt) :
    (ofInt64 k x).toInt64 = .ok x := by
  cases k <;> cases hk
  · have hx : 0 ≤ x.toInt ∧ x.toInt < 2 ^ 8 := hx
    show Except.ok (Int64.ofNat (UInt8.ofNat (x.toInt % 256).toNat).toNat) = _
    congr 1
    rw [← Int64.toInt_inj, toInt_ofNat_byte, UInt8.toNat_ofNat']
    omega
  · have hx : -2 ^ 31 ≤ x.toInt ∧ x.toInt < 2 ^ 31 := hx
    show Except.ok x.toInt32.toInt64 = _
    congr 1
    rw [← Int64.toInt_inj, Int32.toInt_toInt64, Int64.toInt_toInt32]
    exact Int.bmod_eq_of_le (by omega) (by omega)
  · rfl
  · rfl

/-- **Narrowing a word to a kind** keeps what it is congruent to. -/
theorem residue_ofInt64 (hk : k.isInteger = true) (hx : x.toInt ≡ n [ZMOD 2 ^ 64]) :
    (ofInt64 k x).Residue k n := by
  cases k <;> cases hk
  · refine ⟨rfl, rfl, Int.ModEq.trans ?_ (hx.of_dvd (by decide))⟩
    show ((UInt8.ofNat (x.toInt % 256).toNat).toNat : Int) ≡ _ [ZMOD 2 ^ 8]
    rw [UInt8.toNat_ofNat']
    unfold Int.ModEq
    omega
  · refine ⟨rfl, rfl, Int.ModEq.trans ?_ (hx.of_dvd (by decide))⟩
    show x.toInt32.toInt ≡ _ [ZMOD 2 ^ 32]
    rw [Int64.toInt_toInt32]
    exact Int.bmod_emod
  · exact ⟨rfl, rfl, hx⟩
  · exact ⟨rfl, rfl, hx⟩

/-- **No other value of the kind** is congruent to the integer. -/
theorem Residue.unique (hk : k.isInteger = true) (hv : v.Residue k n) (hw : w.Residue k n) :
    v = w := by
  obtain ⟨x, -, -, hx, hvx, hholds⟩ := exists_word (v := v) (by rw [hv.kind_eq]; exact hk)
  obtain ⟨y, -, -, hy, hwy, hholds'⟩ := exists_word (v := w) (by rw [hw.kind_eq]; exact hk)
  have hsame := hv.congruent.trans hw.congruent.symm
  rw [hv.kind_eq] at hvx hholds
  rw [hw.kind_eq] at hwy hholds'
  rw [← hx, ← hy] at hsame
  have hword : x = y := by
    rw [← Int64.toInt_inj]
    clear hx hy hvx hwy
    cases k <;> cases hk <;> simp only [Kind.Holds, Kind.width, Int.ModEq] at * <;> omega
  rw [← hv.bare, ← hw.bare, hvx, hwy, hword]

end Value

/-! ### Operations on words -/

section Words

variable {x : Int64} {n : Int64}

/-- A word with its highest bit clear is its natural number; with that bit set it is counted down from
minus one by its complement. -/
theorem toInt_word (x : BitVec 64) : x.toInt =
    if x.msb then Int.negSucc (~~~x).toNat else (x.toNat : Int) := by
  have hlt := x.isLt
  rw [BitVec.toInt_eq_msb_cond, BitVec.toNat_not, Int.negSucc_eq]
  split
  · omega
  · rfl

theorem ldiff_not (x y : BitVec 64) : Nat.ldiff x.toNat (~~~y).toNat = (x &&& y).toNat := by
  refine Nat.eq_of_testBit_eq fun i => ?_
  rw [Nat.testBit_ldiff, BitVec.testBit_toNat, BitVec.testBit_toNat, BitVec.testBit_toNat,
    BitVec.getLsbD_not, BitVec.getLsbD_and]
  by_cases hi : i < 64
  · simp [hi]
  · simp [BitVec.getLsbD_of_ge x i (by omega)]

theorem toInt_and (x y : BitVec 64) : (x &&& y).toInt = x.toInt.land y.toInt := by
  rw [toInt_word, toInt_word x, toInt_word y, BitVec.msb_and]
  cases x.msb <;> cases y.msb <;>
    simp only [Bool.and_true, Bool.and_false, if_true, Bool.false_eq_true, if_false]
  · exact congrArg Int.ofNat (BitVec.toNat_and x y)
  · exact congrArg Int.ofNat (ldiff_not x y).symm
  · rw [BitVec.and_comm]
    exact congrArg Int.ofNat (ldiff_not y x).symm
  · rw [BitVec.not_and]
    exact congrArg Int.negSucc (BitVec.toNat_or _ _)

theorem toInt_or (x y : BitVec 64) : (x ||| y).toInt = x.toInt.lor y.toInt := by
  have hboth := fun x y : BitVec 64 => ldiff_not (~~~x) (~~~y)
  simp only [BitVec.not_not] at hboth
  rw [toInt_word, toInt_word x, toInt_word y, BitVec.msb_or, BitVec.not_or]
  cases x.msb <;> cases y.msb <;>
    simp only [Bool.or_true, Bool.or_false, if_true, Bool.false_eq_true, if_false]
  · exact congrArg Int.ofNat (BitVec.toNat_or x y)
  · rw [BitVec.and_comm]
    exact congrArg Int.negSucc (hboth y x).symm
  · exact congrArg Int.negSucc (hboth x y).symm
  · exact congrArg Int.negSucc (BitVec.toNat_and _ _)

/-- A product of words is congruent to the product of what they are congruent to. -/
theorem modEq_mul {x y : Int64} {a b : Int} (hx : x.toInt ≡ a [ZMOD 2 ^ 64])
    (hy : y.toInt ≡ b [ZMOD 2 ^ 64]) : (x * y).toInt ≡ a * b [ZMOD 2 ^ 64] := by
  rw [Int64.toInt_mul]
  exact Int.ModEq.trans Int.bmod_emod (hx.mul hy)

/-- Squaring halves of the exponent gives the power. -/
theorem toInt_powInt64 (x : Int64) (e : Nat) :
    (powInt64 x e).toInt ≡ x.toInt ^ e [ZMOD 2 ^ 64] := by
  induction e using Nat.strong_induction_on with
  | h e ih =>
    rw [powInt64]
    split
    · rename_i hzero
      rw [hzero, pow_zero, Int64.toInt_one]
    · have hhalf := ih (e / 2) (by omega)
      have hsquare := modEq_mul hhalf hhalf
      rw [← pow_add] at hsquare
      dsimp only
      split
      · rwa [show e / 2 + e / 2 = e by omega] at hsquare
      · have hmore := modEq_mul hsquare (Int.ModEq.refl x.toInt)
        rwa [← pow_succ, show e / 2 + e / 2 + 1 = e by omega] at hmore

/-- An amount below the width is taken as it is. -/
theorem toNat_smod_amount (hn : 0 ≤ n.toInt) (hn' : n.toInt ≤ 63) :
    (n.toBitVec.smod 64).toNat = n.toInt.toNat := by
  have hmod : (n.toBitVec.smod 64).toInt = n.toInt := by
    rw [BitVec.toInt_smod]
    show n.toInt.fmod 64 = _
    rw [Int.fmod_eq_emod_of_nonneg _ (by decide)]
    omega
  have hlt := (n.toBitVec.smod 64).isLt
  rw [BitVec.toInt_eq_toNat_cond] at hmod
  split at hmod <;> omega

theorem toInt_shiftRight (hn : 0 ≤ n.toInt) (hn' : n.toInt ≤ 63) :
    (x >>> n).toInt = x.toInt / 2 ^ n.toInt.toNat := by
  rw [← Int64.toInt_toBitVec, Int64.toBitVec_shiftRight, BitVec.sshiftRight',
    toNat_smod_amount hn hn', BitVec.toInt_sshiftRight, Int.shiftRight_eq_div_pow]
  push_cast
  rfl

theorem toInt_shiftLeft (hn : 0 ≤ n.toInt) (hn' : n.toInt ≤ 63) :
    (x <<< n).toInt ≡ x.toInt * 2 ^ n.toInt.toNat [ZMOD 2 ^ 64] := by
  rw [← Int64.toInt_toBitVec, Int64.toBitVec_shiftLeft, BitVec.shiftLeft_eq',
    toNat_smod_amount hn hn', BitVec.toInt_shiftLeft]
  refine Int.ModEq.trans Int.bmod_emod ?_
  rw [Nat.shiftLeft_eq]
  push_cast
  refine Int.ModEq.mul_right _ ?_
  rw [← Int64.toInt_toBitVec, BitVec.toInt_eq_toNat_bmod]
  exact Int.bmod_emod.symm

end Words

end ScriptMachine
