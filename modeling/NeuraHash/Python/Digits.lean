import NeuraHash.Python.Json

/-!
# `str.isdigit`

Python counts as digits the decimal digits of every script and the superscript, subscript and
circled ones. `int` reads the decimal digits of any script, and none of the others.
-/

namespace Py

/-- The ranges of code points with a digit value (Unicode 14). -/
def digitRanges : List (ℕ × ℕ) :=
  [(48, 57), (178, 179), (185, 185), (1632, 1641), (1776, 1785), (1984, 1993), (2406, 2415),
    (2534, 2543), (2662, 2671), (2790, 2799), (2918, 2927), (3046, 3055), (3174, 3183),
    (3302, 3311), (3430, 3439), (3558, 3567), (3664, 3673), (3792, 3801), (3872, 3881),
    (4160, 4169), (4240, 4249), (4969, 4977), (6112, 6121), (6160, 6169), (6470, 6479),
    (6608, 6618), (6784, 6793), (6800, 6809), (6992, 7001), (7088, 7097), (7232, 7241),
    (7248, 7257), (8304, 8304), (8308, 8313), (8320, 8329), (9312, 9320), (9332, 9340),
    (9352, 9360), (9450, 9450), (9461, 9469), (9471, 9471), (10102, 10110), (10112, 10120),
    (10122, 10130), (42528, 42537), (43216, 43225), (43264, 43273), (43472, 43481),
    (43504, 43513), (43600, 43609), (44016, 44025), (65296, 65305), (66720, 66729),
    (68160, 68163), (68912, 68921), (69216, 69224), (69714, 69722), (69734, 69743),
    (69872, 69881), (69942, 69951), (70096, 70105), (70384, 70393), (70736, 70745),
    (70864, 70873), (71248, 71257), (71360, 71369), (71472, 71481), (71904, 71913),
    (72016, 72025), (72784, 72793), (73040, 73049), (73120, 73129), (92768, 92777),
    (92864, 92873), (93008, 93017), (120782, 120831), (123200, 123209), (123632, 123641),
    (125264, 125273), (127232, 127242), (130032, 130041)]

/-- A character with a digit value. -/
def isDigitChar (c : Char) : Bool := digitRanges.any fun r => r.1 ≤ c.toNat && c.toNat ≤ r.2

/-- `s.isdigit()`. -/
def strIsDigit (s : String) : Bool := s ≠ "" && s.toList.all isDigitChar

theorem isDigitChar_of_isDigit {c : Char} (h : c.isDigit = true) : isDigitChar c = true := by
  have hbounds : 48 ≤ c.toNat ∧ c.toNat ≤ 57 := by
    simp only [Char.isDigit, Bool.and_eq_true, decide_eq_true_eq, UInt32.le_iff_toNat_le] at h
    exact h
  refine List.any_eq_true.mpr ⟨(48, 57), List.mem_cons_self, ?_⟩
  rw [Bool.and_eq_true, decide_eq_true_eq, decide_eq_true_eq]
  exact hbounds

/-- Decimal digits are digits. -/
theorem strIsDigit_of_isDigits {s : String} (h : isDigits s.toList = true) : strIsDigit s = true := by
  unfold isDigits at h
  rw [Bool.and_eq_true, List.all_eq_true] at h
  unfold strIsDigit
  rw [Bool.and_eq_true, List.all_eq_true]
  refine ⟨?_, fun c hc => isDigitChar_of_isDigit (h.2 c hc)⟩
  rw [decide_eq_true_eq]
  rintro rfl
  exact absurd h.1 (by decide)

/-- A numeral with a minus sign is no digit text. -/
theorem strIsDigit_negative {n : ℤ} (hn : n < 0) : strIsDigit n.repr = false := by
  obtain ⟨m, rfl⟩ := Int.eq_negSucc_of_lt_zero hn
  have hmem : '-' ∈ (Int.negSucc m).repr.toList := by
    show '-' ∈ ("-" ++ _ : String).toList
    rw [String.toList_append]
    exact List.mem_append_left _ (by decide)
  cases hall : strIsDigit (Int.negSucc m).repr with
  | false => rfl
  | true =>
    unfold strIsDigit at hall
    rw [Bool.and_eq_true, List.all_eq_true] at hall
    exact absurd (hall.2 '-' hmem) (by decide)

end Py
