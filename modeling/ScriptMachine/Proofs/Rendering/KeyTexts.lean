import ScriptMachine.Heap.Display
import ScriptMachine.Proofs.Objects.Keys
import ScriptMachine.Proofs.Operators.Comparisons
import ScriptMachine.Proofs.Rendering.Decimals

/-!
# The texts of map keys

A number is written so that it can be read back, so different numbers have different texts, and none
is written like a boolean. Among the keys of a map only a string can have the text of another key,
and words that are not numbers share theirs.

* `Numeral`: numerals and their signs; `NumberFormat.value_text`: a positional text names its
  decimal.
* `Format.roundRatio_unsignedText`: a word is the one nearest to the number that its text names.
* `Binary64.display_eq_iff`, `Binary64.ofInt_of_display`: words with the text of a word, or of an
  integer.
* `Key.text`, `Key.Alike`, `Key.text_eq_iff`: which keys of a map have one text;
  `Key.not_alike_of_rank`: not those of one sort.
-/

namespace ScriptMachine

/-! ### Reading a numeral back -/

namespace Numeral

/-- The digits of a numeral, wherever its point is. -/
def digits (cs : List Char) : Nat := Nat.ofDigitChars 10 (cs.filter (· != '.')) 0

/-- How many of the digits stand behind the point. -/
def places (cs : List Char) : Nat := (cs.dropWhile (· != '.')).length - 1

/-- The number that a numeral without a sign names. -/
def value (cs : List Char) : ℚ := digits cs / (10 ^ places cs : Nat)

/-- What a sign is put in front of. -/
def signed (neg : Bool) (cs : List Char) : List Char := (if neg then ['-'] else []) ++ cs

/-- The characters start with one that is no sign, which is a digit or not. -/
def Starts (digit : Bool) (cs : List Char) : Prop :=
  ∃ c rest, cs = c :: rest ∧ c ≠ '-' ∧ c.isDigit = digit

variable {cs ds : List Char} {c : Char} {neg neg' digit digit' : Bool}

theorem ne_minus_of_isDigit (hc : c.isDigit = true) : c ≠ '-' := by
  rintro rfl
  cases hc

theorem ne_point_of_isDigit (hc : c.isDigit = true) : (c != '.') = true := by
  rw [bne_iff_ne]
  rintro rfl
  cases hc

theorem starts_cons (hc : c.isDigit = true) (rest : List Char) : Starts true (c :: rest) :=
  ⟨c, rest, rfl, ne_minus_of_isDigit hc, hc⟩

theorem Starts.digit_eq (hcs : Starts digit cs) (hcs' : Starts digit' cs) : digit = digit' := by
  obtain ⟨c, rest, rfl, -, rfl⟩ := hcs
  obtain ⟨c', rest', heq, -, rfl⟩ := hcs'
  cases heq
  rfl

/-- A sign can be told from what follows. -/
theorem signed_inj (hcs : Starts digit cs) (hds : Starts digit' ds)
    (h : signed neg cs = signed neg' ds) : neg = neg' ∧ cs = ds := by
  obtain ⟨c, cs, rfl, hc, -⟩ := hcs
  obtain ⟨d, ds, rfl, hd, -⟩ := hds
  cases neg with
  | true =>
    cases neg' with
    | true => exact ⟨rfl, (List.cons.inj h).2⟩
    | false => exact absurd (List.cons.inj h).1.symm hd
  | false =>
    cases neg' with
    | true => exact absurd (List.cons.inj h).1 hc
    | false => exact ⟨rfl, h⟩

theorem isDigit_of_mem_toDigits {n : Nat} (hc : c ∈ Nat.toDigits 10 n) : c.isDigit = true :=
  Nat.isDigit_of_mem_toDigits (by decide) le_rfl hc

theorem starts_toDigits (n : Nat) : Starts true (Nat.toDigits 10 n) := by
  obtain ⟨c, rest, h⟩ := List.exists_cons_of_ne_nil (Nat.toDigits_ne_nil (n := n) (b := 10))
  rw [h]
  exact starts_cons (isDigit_of_mem_toDigits (h ▸ List.mem_cons_self)) _

theorem Starts.append (hcs : Starts digit cs) (ds : List Char) : Starts digit (cs ++ ds) := by
  obtain ⟨c, rest, rfl, hc, hdigit⟩ := hcs
  exact ⟨c, rest ++ ds, rfl, hc, hdigit⟩

/-- A numeral with a point in it is divided by a power of ten. -/
theorem value_point {whole frac : List Char} (hwhole : ∀ c ∈ whole, c.isDigit = true)
    (hfrac : ∀ c ∈ frac, c.isDigit = true) {n : Nat} {e : Int}
    (hread : Nat.ofDigitChars 10 (whole ++ frac) 0 = n) (he : (frac.length : Int) = -e) :
    value (whole ++ '.' :: frac) = n * 10 ^ e := by
  have hdigits : (whole ++ '.' :: frac).filter (· != '.') = whole ++ frac := by
    rw [List.filter_append, List.filter_cons_of_neg (by decide),
      List.filter_eq_self.2 fun c hc => ne_point_of_isDigit (hwhole c hc),
      List.filter_eq_self.2 fun c hc => ne_point_of_isDigit (hfrac c hc)]
  have hplaces : (whole ++ '.' :: frac).dropWhile (· != '.') = '.' :: frac := by
    rw [List.dropWhile_append_of_pos fun c hc => ne_point_of_isDigit (hwhole c hc)]
    rfl
  obtain rfl : e = -(frac.length : Int) := by omega
  rw [value, digits, places, hdigits, hplaces, hread, List.length_cons, Nat.add_sub_cancel,
    zpow_neg, zpow_natCast, ← div_eq_mul_inv]
  push_cast
  rfl

/-- A numeral without a point is an integer. -/
theorem digits_places_whole (hcs : ∀ c ∈ cs, c.isDigit = true) :
    digits cs = Nat.ofDigitChars 10 cs 0 ∧ places cs = 0 := by
  have hplaces : cs.dropWhile (· != '.') = [] := by
    rw [← List.append_nil cs,
      List.dropWhile_append_of_pos fun c hc => ne_point_of_isDigit (hcs c hc)]
    rfl
  rw [digits, places, hplaces, List.filter_eq_self.2 fun c hc => ne_point_of_isDigit (hcs c hc)]
  exact ⟨rfl, rfl⟩

end Numeral

open Numeral

namespace NumberFormat

theorem text_displayNumber (x : Decimal) :
    displayNumber.text x = displayNumber.positionalText (Nat.toDigits 10 x.digits)
      ((Nat.toDigits 10 x.digits).length + x.exponent) := rfl

/-- **The positional text of a decimal** names it. -/
theorem value_text (x : Decimal) : value (displayNumber.text x) = x.value := by
  have hdigit : ∀ c ∈ Nat.toDigits 10 x.digits, c.isDigit = true := fun c => isDigit_of_mem_toDigits
  have hzeros : ∀ n, ∀ c ∈ List.replicate n '0', c.isDigit = true := by
    intro n c hc
    rw [(List.mem_replicate.1 hc).2]
    rfl
  have hread := Nat.ofDigitChars_ten_toDigits (n := x.digits)
  rw [text_displayNumber, Decimal.value]
  generalize Nat.toDigits 10 x.digits = ds at *
  generalize hpoint : (ds.length : Int) + x.exponent = point
  unfold positionalText
  split
  · have hpadded : ∀ c ∈ List.replicate (-point).toNat '0' ++ ds, c.isDigit = true :=
      fun c hc => (List.mem_append.1 hc).elim (hzeros _ c) (hdigit c)
    refine (value_point (by simp) hpadded ?_ ?_ : value (['0'] ++ '.' :: _) = _)
    · rw [List.singleton_append, Nat.ofDigitChars_cons, Nat.ofDigitChars_append,
        Nat.ofDigitChars_replicate_zero]
      exact hread
    · rw [List.length_append, List.length_replicate]
      omega
  split
  · have hpadded : ∀ c ∈ ds ++ List.replicate (point.toNat - ds.length) '0', c.isDigit = true :=
      fun c hc => (List.mem_append.1 hc).elim (hdigit c) (hzeros _ c)
    obtain ⟨hdigits, hplaces⟩ := digits_places_whole hpadded
    obtain ⟨n, hn⟩ : ∃ n : Nat, x.exponent = n := Int.eq_ofNat_of_zero_le (by omega)
    have hlength : point.toNat - ds.length = n := by omega
    rw [hlength] at hdigits hplaces
    rw [hlength, hn, zpow_natCast]
    show value (ds ++ List.replicate n '0' ++ []) = _
    rw [List.append_nil, value, hdigits, hplaces, Nat.ofDigitChars_append,
      Nat.ofDigitChars_replicate_zero, hread]
    push_cast
    ring
  · refine value_point (fun c hc => hdigit c (List.mem_of_mem_take hc))
      (fun c hc => hdigit c (List.mem_of_mem_drop hc)) ?_ ?_
    · rw [List.take_append_drop, hread]
    · rw [List.length_drop]
      omega

/-- It starts with a digit. -/
theorem starts_text (x : Decimal) : Starts true (displayNumber.text x) := by
  rw [text_displayNumber]
  unfold positionalText
  split
  · exact starts_cons rfl _
  split
  · exact ((starts_toDigits _).append _).append _
  · rename_i hneg hlen
    obtain ⟨c, rest, hcs, hc, hdigit⟩ := starts_toDigits x.digits
    rw [hcs] at hneg hlen ⊢
    obtain ⟨n, hn⟩ : ∃ n, (((c :: rest).length : Int) + x.exponent).toNat = n + 1 :=
      Nat.exists_eq_succ_of_ne_zero (by omega)
    rw [hn]
    exact starts_cons hdigit _

end NumberFormat

/-! ### Words -/

namespace Format

variable {f : Format} {a b : Nat}

/-- The text of a word without its sign. -/
def unsignedText (f : Format) (bits : Nat) : List Char :=
  if f.isNaN bits then ['N', 'a', 'N']
  else if f.isInfinite bits then ['i', 'n', 'f']
  else if f.magnitude bits = 0 then ['0']
  else displayNumber.text (f.shortest .up bits)

theorem displayText_eq (f : Format) (a : Nat) : f.displayText a
    = String.ofList (signed (f.negative a && !f.isNaN a) (f.unsignedText a)) := by
  unfold displayText unsignedText
  cases f.isNaN a with
  | true =>
    rw [Bool.not_true, Bool.and_false]
    rfl
  | false =>
    rw [Bool.not_false, Bool.and_true, if_neg Bool.false_ne_true, if_neg Bool.false_ne_true]
    split
    · cases f.negative a <;> rfl
    · rfl

/-- A finite word starts with a digit, the others do not. -/
theorem starts_unsignedText (f : Format) (a : Nat) :
    Starts (decide (f.magnitude a < f.infinity)) (f.unsignedText a) := by
  unfold unsignedText
  split
  · rename_i h
    rw [decide_eq_false (Nat.lt_asymm (of_decide_eq_true h))]
    exact ⟨'N', _, rfl, by decide, rfl⟩
  split
  · rename_i h
    rw [decide_eq_false (Nat.not_lt.2 (eq_of_beq h).ge)]
    exact ⟨'i', _, rfl, by decide, rfl⟩
  · rename_i hnan hinfinite
    rw [isNaN, decide_eq_true_eq] at hnan
    rw [isInfinite, beq_iff_eq] at hinfinite
    rw [decide_eq_true (show f.magnitude a < f.infinity by omega)]
    split
    · exact starts_cons rfl _
    · exact NumberFormat.starts_text _

/-- **The text of a word can be read back**: the word is the one nearest to the number. -/
theorem roundRatio_unsignedText (hf : f.IsModest) (hfinite : f.magnitude a < f.infinity) :
    f.roundRatio (digits (f.unsignedText a)) (10 ^ places (f.unsignedText a)) = f.magnitude a := by
  have hnan : ¬ f.isNaN a = true := by
    rw [isNaN, decide_eq_true_eq]
    exact Nat.lt_asymm hfinite
  have hinfinite : ¬ f.isInfinite a = true := by
    rw [isInfinite, beq_iff_eq]
    exact hfinite.ne
  unfold unsignedText
  rw [if_neg hnan, if_neg hinfinite]
  split
  · rename_i hzero
    rw [hzero]
    rfl
  · rename_i hpos
    have hpos := Nat.pos_of_ne_zero hpos
    have hholds := (names_shortest hf hpos hfinite .up).holds
    rw [← NumberFormat.value_text] at hholds
    exact roundRatio_of_holds hpos hfinite hf.infinity_lt (by positivity) hholds

theorem unsignedText_of_le (h : f.infinity ≤ f.magnitude a) :
    f.unsignedText a = if f.isNaN a then ['N', 'a', 'N'] else ['i', 'n', 'f'] := by
  unfold unsignedText
  split
  · rfl
  · rename_i hnan
    rw [isNaN, decide_eq_true_eq] at hnan
    exact if_pos (beq_iff_eq.2 (by omega))

/-- The text without the sign tells the magnitude. -/
theorem magnitude_of_unsignedText (hf : f.IsModest) (h : f.unsignedText a = f.unsignedText b) :
    f.isNaN a = f.isNaN b ∧ (f.isNaN a = false → f.magnitude a = f.magnitude b) := by
  have hfinite := (f.starts_unsignedText a).digit_eq (h ▸ f.starts_unsignedText b)
  rw [decide_eq_decide] at hfinite
  by_cases ha : f.magnitude a < f.infinity
  · have hround := roundRatio_unsignedText hf ha
    rw [h, roundRatio_unsignedText hf (hfinite.1 ha)] at hround
    have hsame : f.isNaN a = f.isNaN b := by
      rw [isNaN, isNaN, hround]
    exact ⟨hsame, fun _ => hround.symm⟩
  · have hb := hfinite.not.1 ha
    rw [Nat.not_lt] at ha hb
    rw [unsignedText_of_le ha, unsignedText_of_le hb] at h
    have hsame : f.isNaN a = f.isNaN b := by
      cases hna : f.isNaN a <;> cases hnb : f.isNaN b <;> rw [hna, hnb] at h <;>
        first | rfl | cases h
    refine ⟨hsame, fun hnan => ?_⟩
    have hnan' := hsame.symm.trans hnan
    rw [isNaN, decide_eq_false_iff_not] at hnan hnan'
    omega

/-- **Words of one text** are one word, or neither is a number. -/
theorem displayText_eq_iff (hf : f.IsModest) (ha : a < 2 * f.signBit) (hb : b < 2 * f.signBit) :
    f.displayText a = f.displayText b ↔ a = b ∨ f.isNaN a = true ∧ f.isNaN b = true := by
  constructor
  · intro h
    rw [displayText_eq, displayText_eq, String.ofList_inj] at h
    obtain ⟨hsign, hunsigned⟩ := signed_inj (f.starts_unsignedText a) (f.starts_unsignedText b) h
    obtain ⟨hnan, hmagnitude⟩ := magnitude_of_unsignedText hf hunsigned
    cases ha' : f.isNaN a with
    | true => exact .inr ⟨rfl, hnan ▸ ha'⟩
    | false =>
      rw [← hnan, ha', Bool.not_false, Bool.and_true, Bool.and_true] at hsign
      rw [← f.withSign_magnitude ha, ← f.withSign_magnitude hb, hsign, hmagnitude ha']
      exact .inl rfl
  · rintro (rfl | ⟨hnana, hnanb⟩)
    · rfl
    · rw [displayText, displayText, if_pos hnana, if_pos hnanb]

end Format

/-- **Words of one text** are one word, or neither is a number. -/
theorem Binary64.display_eq_iff {x y : Binary64} :
    x.display = y.display ↔ x = y ∨ x.isNaN = true ∧ y.isNaN = true := by
  refine (Format.displayText_eq_iff Format.isModest_double x.bits.toNat_lt y.bits.toNat_lt).trans
    (or_congr_left ?_)
  rw [UInt64.toNat_inj, ← mk.injEq]

theorem Binary32.display_eq_iff {x y : Binary32} :
    x.display = y.display ↔ x = y ∨ x.isNaN = true ∧ y.isNaN = true := by
  refine (Format.displayText_eq_iff Format.isModest_single x.bits.toNat_lt y.bits.toNat_lt).trans
    (or_congr_left ?_)
  rw [UInt32.toNat_inj, ← mk.injEq]

/-- The text of an integer. -/
theorem toString_int (i : Int) :
    toString i = String.ofList (signed (decide (i < 0)) (Nat.toDigits 10 i.natAbs)) := by
  unfold signed
  rw [Int.toString_eq_repr, Int.repr_eq_if]
  split
  · rename_i h
    rw [if_neg (by simpa using h), List.nil_append, ← Nat.toString_eq_ofList_toDigits,
      show i.natAbs = i.toNat by omega]
    rfl
  · rename_i h
    rw [if_pos (by simpa using h), String.ofList_append, ← Nat.toString_eq_ofList_toDigits,
      show i.natAbs = (-i).toNat by omega]
    rfl

theorem toString_int_injective : Function.Injective (toString : Int → String) := by
  intro i j h
  rw [toString_int, toString_int, String.ofList_inj] at h
  obtain ⟨hsign, hdigits⟩ := signed_inj (starts_toDigits _) (starts_toDigits _) h
  have habs := congrArg (Nat.ofDigitChars 10 · 0) hdigits
  rw [Nat.ofDigitChars_ten_toDigits, Nat.ofDigitChars_ten_toDigits] at habs
  rw [decide_eq_decide] at hsign
  omega

/-- **A word with the text of an integer** is the one nearest to the integer. -/
theorem Binary64.ofInt_of_display {i : Int} {x : Binary64} (h : toString i = x.display) :
    ofInt i = x := by
  rw [display, Format.displayText_eq, toString_int, String.ofList_inj] at h
  have hstarts := starts_toDigits i.natAbs
  obtain ⟨hsign, hunsigned⟩ := signed_inj hstarts (Format.double.starts_unsignedText x.word) h
  have hfinite := hstarts.digit_eq (hunsigned ▸ Format.double.starts_unsignedText x.word)
  have hlt := of_decide_eq_true hfinite.symm
  have hnan : Format.double.isNaN x.word = false := decide_eq_false (Nat.lt_asymm hlt)
  have hround := Format.roundRatio_unsignedText Format.isModest_double hlt
  have hdigit : ∀ c ∈ Nat.toDigits 10 i.natAbs, c.isDigit = true := fun c => isDigit_of_mem_toDigits
  obtain ⟨hdigits, hplaces⟩ := digits_places_whole hdigit
  rw [← hunsigned, hdigits, hplaces, Nat.ofDigitChars_ten_toDigits, pow_zero] at hround
  rw [hnan, Bool.not_false, Bool.and_true] at hsign
  rw [ofInt, hsign, hround, Format.withSign_magnitude _ x.bits.toNat_lt, ofWord, word,
    UInt64.ofNat_toNat]

/-! ### Booleans -/

/-- A boolean is not spelled like a number. -/
theorem scalarText_bool (p : Bool) : ∃ cs,
    (Value.bool p).scalarText = String.ofList (signed false cs) ∧
    Starts false cs ∧ cs ≠ ['N', 'a', 'N'] ∧ cs ≠ ['i', 'n', 'f'] := by
  cases p with
  | true => exact ⟨['t', 'r', 'u', 'e'], rfl, ⟨'t', _, rfl, by decide, rfl⟩, by decide, by decide⟩
  | false =>
    exact ⟨['f', 'a', 'l', 's', 'e'], rfl, ⟨'f', _, rfl, by decide, rfl⟩, by decide, by decide⟩

theorem toString_int_ne_bool (i : Int) (p : Bool) : toString i ≠ (Value.bool p).scalarText := by
  obtain ⟨cs, hcs, hstarts, -, -⟩ := scalarText_bool p
  intro h
  rw [hcs, toString_int, String.ofList_inj] at h
  have hdigits := starts_toDigits i.natAbs
  cases hdigits.digit_eq ((signed_inj hdigits hstarts h).2 ▸ hstarts)

theorem Format.displayText_ne_bool (f : Format) (a : Nat) (p : Bool) :
    f.displayText a ≠ (Value.bool p).scalarText := by
  obtain ⟨cs, hcs, hstarts, hnan, hinf⟩ := scalarText_bool p
  intro h
  rw [hcs, displayText_eq, String.ofList_inj] at h
  obtain ⟨-, hunsigned⟩ := signed_inj (f.starts_unsignedText a) hstarts h
  have hfinite := (f.starts_unsignedText a).digit_eq (hunsigned ▸ hstarts)
  rw [decide_eq_false_iff_not, Nat.not_lt] at hfinite
  rw [unsignedText_of_le hfinite] at hunsigned
  split at hunsigned
  · exact hnan hunsigned.symm
  · exact hinf hunsigned.symm

/-! ### Keys -/

namespace Key

variable {type : Ty} {a b k : Key}

/-- The text of a key in a key type. -/
def text (type : Ty) (k : Key) : String := (k.toValue type).unwrapped.scalarText

/-- The text is how the key is shown. -/
theorem display_toValue (h : Heap) (type : Ty) (k : Key) :
    h.display (k.toValue type) = k.text type := by
  have hscalar := isScalar_toValue type k
  rw [← Value.kind_unwrapped] at hscalar
  unfold text Heap.display Heap.depth
  rw [Heap.displayWithin]
  generalize (k.toValue type).unwrapped = u at hscalar
  cases u <;> first | rfl | cases hscalar

/-- A value that is taken for a key has the text of the key, if that is no float. -/
theorem scalarText_of_ofValue {v : Value} (h : ofValue v = .ok k) (hfloat : ∀ x, k ≠ float x) :
    v.unwrapped.scalarText = k.widest.scalarText := by
  unfold ofValue at h
  cases hu : v.unwrapped with
  | constant w => exact absurd hu (unwrapped_ne_constant v w)
  | float32 x | float64 x =>
    rw [hu] at h
    cases h
    exact absurd rfl (hfloat _)
  | byte n =>
    rw [hu] at h
    cases h
    show toString n.toNat = toString (Int64.ofNat n.toNat).toInt
    rw [Value.toInt_ofNat_byte]
    rfl
  | int32 n =>
    rw [hu] at h
    cases h
    show toString n.toInt = toString n.toInt64.toInt
    rw [Int32.toInt_toInt64]
  | _ =>
    rw [hu] at h
    cases h <;> rfl

/-- **A key that fits** has the text of its widest kind, unless it is a float among single-precision
keys. -/
theorem text_eq_widest (hk : k.Fits type) (hkind : type.kind = .float32 → ∀ x, k ≠ float x) :
    k.text type = k.widest.scalarText := by
  cases k with
  | float x =>
    have hkind : type.kind ≠ .float32 := fun heq => hkind heq x rfl
    unfold Fits toValue at hk
    unfold text toValue
    cases htype : type.kind <;> rw [htype] at hk <;>
      first | rfl | cases hk | exact absurd htype hkind
  | bool _ | int _ | string _ => exact scalarText_of_ofValue hk nofun

/-- There the text is that of a single-precision word, which is the same number. -/
theorem text_float32 {x : Binary64} (hk : (float x).Fits type) (hkind : type.kind = .float32) :
    (float x).text type = x.toBinary32.display ∧ x.toBinary32.toBinary64 = x := by
  rw [Fits, toValue, hkind] at hk
  rw [text, toValue, hkind]
  exact ⟨rfl, Key.float.inj (Except.ok.inj hk)⟩

/-- A map keyed by single-precision words has no integer keys. -/
theorem kind_of_int {n : Int64} (hk : (int n).Fits type) : type.kind ≠ .float32 := by
  intro hkind
  rw [Fits, toValue, hkind] at hk
  cases hk

/-- The keys are spelled alike: a string spells the other key, or neither is a number. -/
def Alike (type : Ty) (a b : Key) : Prop :=
  a = .string (b.text type) ∨ b = .string (a.text type) ∨
    a.widest.isNaN = true ∧ b.widest.isNaN = true

/-- An integer and a float of one text are equal keys. -/
theorem int_beq_float {n : Int64} {x : Binary64} (hn : (int n).Fits type) (hx : (float x).Fits type)
    (h : (int n).text type = (float x).text type) : (int n == float x) = true := by
  have hkind := kind_of_int hn
  rw [text_eq_widest hn fun heq => absurd heq hkind,
    text_eq_widest hx fun heq => absurd heq hkind] at h
  show (compare (Binary64.ofInt n.toInt).totalKey x.totalKey == .eq) = true
  rw [Binary64.ofInt_of_display h, beq_iff_eq]
  exact Std.ReflCmp.compare_self

/-- Floats of one text are equal keys, or neither is a number. -/
theorem float_text_iff {x y : Binary64} (hx : (float x).Fits type) (hy : (float y).Fits type) :
    (float x).text type = (float y).text type ↔ x = y ∨ x.isNaN = true ∧ y.isNaN = true := by
  by_cases hkind : type.kind = .float32
  · obtain ⟨htextx, hbackx⟩ := text_float32 hx hkind
    obtain ⟨htexty, hbacky⟩ := text_float32 hy hkind
    have hnan : ∀ {y : Binary64}, y.toBinary32.toBinary64 = y → y.toBinary32.isNaN = y.isNaN := by
      intro y hback
      cases hy : y.isNaN with
      | false => exact Binary64.isNaN_toBinary32 hy
      | true =>
        by_contra hne
        rw [← hback, Binary32.isNaN_toBinary64 (Bool.eq_false_of_not_eq_true hne)] at hy
        cases hy
    rw [htextx, htexty, Binary32.display_eq_iff, hnan hbackx, hnan hbacky]
    refine or_congr_left ⟨fun heq => ?_, congrArg _⟩
    rw [← hbackx, heq, hbacky]
  · rw [text_eq_widest hx fun heq => absurd heq hkind,
      text_eq_widest hy fun heq => absurd heq hkind]
    exact Binary64.display_eq_iff

/-- A number is not spelled like a boolean. -/
theorem text_ne_bool {p : Bool} (ha : a.Fits type) (hnumber : a.rank = 1)
    (hp : (bool p).Fits type) : a.text type ≠ (bool p).text type := by
  rw [text_eq_widest hp nofun]
  cases a with
  | int n =>
    rw [text_eq_widest ha nofun]
    exact toString_int_ne_bool n.toInt p
  | float x =>
    by_cases hkind : type.kind = .float32
    · rw [(text_float32 ha hkind).1]
      exact Format.displayText_ne_bool _ _ p
    · rw [text_eq_widest ha fun heq => absurd heq hkind]
      exact Format.displayText_ne_bool _ _ p
  | bool _ | string _ => cases hnumber

/-- **Two keys of a map have one text** just if they are equal or spelled alike. -/
theorem text_eq_iff (ha : a.Fits type) (hb : b.Fits type) (hne : (a == b) = false) :
    a.text type = b.text type ↔ Alike type a b := by
  have hstring : ∀ {s}, (string s).Fits type → (string s).text type = s :=
    fun hs => text_eq_widest hs nofun
  constructor
  · intro h
    have hdiffer : ¬ (a == b) = true := Bool.eq_false_iff.1 hne
    cases a with
    | string s =>
      rw [hstring ha] at h
      exact .inl (congrArg string h)
    | bool p =>
      cases b with
      | string s =>
        rw [hstring hb] at h
        exact .inr (.inl (congrArg string h.symm))
      | bool q =>
        rw [text_eq_widest ha nofun, text_eq_widest hb nofun] at h
        cases p <;> cases q <;> first | exact absurd rfl hdiffer | exact absurd h (by decide)
      | int _ | float _ => exact absurd h.symm (text_ne_bool hb rfl ha)
    | int n =>
      cases b with
      | string s =>
        rw [hstring hb] at h
        exact .inr (.inl (congrArg string h.symm))
      | bool _ => exact absurd h (text_ne_bool ha rfl hb)
      | int m =>
        rw [text_eq_widest ha nofun, text_eq_widest hb nofun] at h
        obtain rfl := Int64.toInt_inj.1 (toString_int_injective h)
        exact absurd BEq.rfl hdiffer
      | float x => exact absurd (int_beq_float ha hb h) hdiffer
    | float x =>
      cases b with
      | string s =>
        rw [hstring hb] at h
        exact .inr (.inl (congrArg string h.symm))
      | bool _ => exact absurd h (text_ne_bool ha rfl hb)
      | int n =>
        rw [beq_comm] at hdiffer
        exact absurd (int_beq_float hb ha h.symm) hdiffer
      | float y =>
        rcases (float_text_iff ha hb).1 h with rfl | hnan
        · exact absurd BEq.rfl hdiffer
        · exact .inr (.inr hnan)
  · rintro (heq | heq | hnan)
    · rw [heq] at ha ⊢
      exact hstring ha
    · rw [heq] at hb ⊢
      exact (hstring hb).symm
    · cases a with
      | float x =>
        cases b with
        | float y => exact (float_text_iff ha hb).2 (.inr hnan)
        | _ => cases hnan.2
      | _ => cases hnan.1

/-- Keys of one sort are not spelled alike, unless they are no numbers. -/
theorem not_alike_of_rank (ha : a.Fits type) (hb : b.Fits type) (hne : (a == b) = false)
    (hrank : a.rank = b.rank) (hnan : a.widest.isNaN = false) : ¬ Alike type a b := by
  intro halike
  have htext := (text_eq_iff ha hb hne).2 halike
  have hstrings : ∀ {s t}, a = string s → b = string t → False := by
    rintro s t rfl rfl
    rw [text_eq_widest ha nofun, text_eq_widest hb nofun] at htext
    rw [show s = t from htext, BEq.rfl] at hne
    cases hne
  rcases halike with heq | heq | hnans
  · rw [heq] at hrank
    cases b with
    | string t => exact hstrings heq rfl
    | _ => cases hrank
  · rw [heq] at hrank
    cases a with
    | string s => exact hstrings rfl heq
    | _ => cases hrank
  · rw [hnan] at hnans
    cases hnans.1

end Key

end ScriptMachine
