/-!
# Natural numbers in text

Digits in base ten, with an optional plus sign, of a number that takes 64 bits. Main statement:
`natural?_eq_ok_iff`.
-/

namespace BuildRules.Text

/-- Why a text is not read as such a number. -/
inductive NumberFault
  | empty
  | invalidDigit
  | tooLarge
  deriving DecidableEq

def NumberFault.message : NumberFault → String
  | .empty => "cannot parse integer from empty string"
  | .invalidDigit => "invalid digit found in string"
  | .tooLarge => "number too large to fit in target type"

/-- What numbers stay below: two to the power of 64. -/
def numberLimit : Nat := 18446744073709551616

/-- Reads digits behind those that make `n`. The first character at fault decides which fault it
is. -/
def digitsFrom (n : Nat) : List Char → Except NumberFault Nat
  | [] => .ok n
  | c :: rest =>
    if c.isDigit then
      let m := 10 * n + (c.toNat - 48)
      if m < numberLimit then digitsFrom m rest else .error .tooLarge
    else .error .invalidDigit

def natural? (s : String) : Except NumberFault Nat :=
  match s.toList with
  | [] => .error .empty
  | ['+'] => .error .invalidDigit
  | '+' :: digits => digitsFrom 0 digits
  | digits => digitsFrom 0 digits

/-! ## What is read -/

/-- A text denotes a number: digits in base ten, with or without a plus sign before them. -/
def Denotes (s : String) (n : Nat) : Prop :=
  ∃ digits, (s.toList = digits ∨ s.toList = '+' :: digits) ∧ digits ≠ [] ∧
    (∀ c ∈ digits, c.isDigit) ∧ n = Nat.ofDigitChars 10 digits 0 ∧ n < numberLimit

private theorem le_ofDigitChars (n : Nat) (digits : List Char) :
    n ≤ Nat.ofDigitChars 10 digits n := by
  rw [Nat.ofDigitChars_eq_ofDigitChars_zero]
  have hpow : n ≤ 10 ^ digits.length * n := Nat.le_mul_of_pos_left n (Nat.pow_pos (by decide))
  omega

theorem digitsFrom_eq_ok_iff {n m : Nat} {digits : List Char} (hn : n < numberLimit) :
    digitsFrom n digits = .ok m ↔
      (∀ c ∈ digits, c.isDigit) ∧ m = Nat.ofDigitChars 10 digits n ∧ m < numberLimit := by
  induction digits generalizing n with
  | nil =>
    simp only [digitsFrom, Except.ok.injEq, List.not_mem_nil, false_implies, implies_true, true_and,
      Nat.ofDigitChars_nil]
    exact ⟨fun h => ⟨h.symm, h ▸ hn⟩, fun h => h.1.symm⟩
  | cons c digits ih =>
    rw [digitsFrom, Nat.ofDigitChars_cons]
    split
    · next hdigit =>
      dsimp only
      split
      · next hlt => simp [ih hlt, hdigit]
      · next hlt =>
        -- further digits only make the number larger
        have hle := le_ofDigitChars (10 * n + (c.toNat - '0'.toNat)) digits
        have hzero : '0'.toNat = 48 := rfl
        rw [hzero] at hle ⊢
        refine ⟨fun h => (nomatch h), fun h => ?_⟩
        omega
    · next hdigit => simp [hdigit]

theorem natural?_eq_ok_iff {s : String} {n : Nat} : natural? s = .ok n ↔ Denotes s n := by
  have hsign : ¬ '+'.isDigit := by decide
  unfold natural? Denotes
  split
  · next h => simp [h]
  · next h => simp [h]
  · next digits hne h =>
    rw [digitsFrom_eq_ok_iff (by decide), h]
    constructor
    · exact fun hdigits => ⟨digits, .inr rfl, hne, hdigits⟩
    · rintro ⟨digits', rfl | heq, -, hdigits⟩
      · exact absurd (hdigits.1 '+' List.mem_cons_self) hsign
      · cases heq
        exact hdigits
  · next hnil _ hplus =>
    rw [digitsFrom_eq_ok_iff (by decide)]
    constructor
    · exact fun hdigits => ⟨_, .inl rfl, hnil, hdigits⟩
    · rintro ⟨digits, rfl | heq, -, hdigits⟩
      · exact hdigits
      · exact absurd heq (hplus digits)

end BuildRules.Text
