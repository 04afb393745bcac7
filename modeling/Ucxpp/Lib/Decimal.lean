import Mathlib.Data.List.TakeWhile

/-!
# Decimal — numbers at the front of a text

How the C library reads a decimal number: it skips white space, takes a sign and as many
digits as there are, and leaves the rest of the text alone.

* `read` — the number at the front of a text, if there is one;
* `read_eq_some_iff` — the texts that begin with a number;
* `read_signed` — the digits of a number are read as that number.
-/

namespace Decimal

/-- `isspace`: a blank, or a character from tab to carriage return. -/
def isSpace (c : Char) : Bool :=
  c.toNat == 32 || (9 ≤ c.toNat && c.toNat ≤ 13)

structure Number where
  negative : Bool
  magnitude : Nat
deriving DecidableEq, Repr

/-- The sign, and what follows it. -/
def takeSign : List Char → Bool × List Char
  | '-' :: rest => (true, rest)
  | '+' :: rest => (false, rest)
  | text => (false, text)

def read (text : List Char) : Option Number :=
  let signed := takeSign (text.dropWhile isSpace)
  let digits := signed.2.takeWhile Char.isDigit
  if digits = [] then none else some ⟨signed.1, Nat.ofDigitChars 10 digits 0⟩

/-- A sign, or none. -/
inductive Sign : Bool → List Char → Prop
  | minus : Sign true ['-']
  | plus : Sign false ['+']
  | none : Sign false []

/-- The text is white space, a number and what follows its digits. -/
structure Front (text : List Char) (n : Number) (spaces sign digits rest : List Char) : Prop where
  text : text = spaces ++ (sign ++ (digits ++ rest))
  spaces : ∀ c ∈ spaces, isSpace c = true
  sign : Sign n.negative sign
  digits_ne : digits ≠ []
  isDigit : ∀ c ∈ digits, c.isDigit = true
  rest : ∀ c ∈ rest.head?, c.isDigit = false
  magnitude : n.magnitude = Nat.ofDigitChars 10 digits 0

/-! ## Parts of a text -/

theorem toNat_of_isDigit {c : Char} (h : c.isDigit = true) : 48 ≤ c.toNat ∧ c.toNat ≤ 57 := by
  simp only [Char.isDigit, Bool.and_eq_true, decide_eq_true_eq] at h
  exact h

theorem isSpace_of_isDigit {c : Char} (h : c.isDigit = true) : isSpace c = false := by
  have hrange := toNat_of_isDigit h
  simp only [isSpace, Bool.or_eq_false_iff, Bool.and_eq_false_iff, beq_eq_false_iff_ne,
    decide_eq_false_iff_not]
  omega

section

variable {p : Char → Bool} {text : List Char}

theorem takeWhile_of_head (h : ∀ c ∈ text.head?, p c = false) : text.takeWhile p = [] := by
  cases text with
  | nil => rfl
  | cons c text =>
    have hc : p c = false := h c rfl
    rw [List.takeWhile_cons, hc]
    rfl

theorem dropWhile_of_head (h : ∀ c ∈ text.head?, p c = false) : text.dropWhile p = text := by
  cases text with
  | nil => rfl
  | cons c text =>
    have hc : p c = false := h c rfl
    rw [List.dropWhile_cons, hc]
    rfl

theorem head_dropWhile : ∀ c ∈ (text.dropWhile p).head?, p c = false := by
  intro c hc
  have hnot := List.head?_dropWhile_not p text
  rw [Option.mem_def.mp hc] at hnot
  exact hnot

end

/-- After the white space there is a sign, or none. -/
theorem takeSign_spec (text : List Char) :
    ∃ sign, Sign (takeSign text).1 sign ∧ text = sign ++ (takeSign text).2 := by
  unfold takeSign
  split
  · exact ⟨_, .minus, rfl⟩
  · exact ⟨_, .plus, rfl⟩
  · exact ⟨_, .none, rfl⟩

/-- The sign before a digit is taken off. -/
theorem takeSign_append {negative : Bool} {sign : List Char} (hsign : Sign negative sign)
    {c : Char} {text : List Char} (hc : c.isDigit = true) :
    takeSign (sign ++ c :: text) = (negative, c :: text) := by
  cases hsign with
  | minus | plus => rfl
  | none =>
    rw [List.nil_append]
    unfold takeSign
    split
    · rename_i heq
      cases heq
      cases hc
    · rename_i heq
      cases heq
      cases hc
    · rfl

/-- A number does not begin with white space. -/
theorem head_signed {negative : Bool} {sign : List Char} (hsign : Sign negative sign)
    {c : Char} {text : List Char} (hc : c.isDigit = true) :
    ∀ d ∈ (sign ++ c :: text).head?, isSpace d = false := by
  cases hsign with
  | minus | plus =>
    rintro d ⟨⟩
    rfl
  | none =>
    rintro d ⟨⟩
    exact isSpace_of_isDigit hc

/-! ## Reading -/

/-- A text is read as a number exactly if it begins with it. -/
theorem read_eq_some_iff {text : List Char} {n : Number} :
    read text = some n ↔ ∃ spaces sign digits rest, Front text n spaces sign digits rest := by
  constructor
  · intro hread
    unfold read at hread
    simp only at hread
    split at hread
    · cases hread
    · rename_i hdigits
      rcases takeSign_spec (text.dropWhile isSpace) with ⟨sign, hsign, htext⟩
      obtain rfl := Option.some.inj hread
      refine ⟨text.takeWhile isSpace, sign, _, (takeSign (text.dropWhile isSpace)).2.dropWhile
        Char.isDigit, ?_, ?_, hsign, hdigits, ?_, head_dropWhile, rfl⟩
      · rw [List.takeWhile_append_dropWhile, ← htext, List.takeWhile_append_dropWhile]
      · intro c hc
        exact List.mem_takeWhile_imp hc
      · intro c hc
        exact List.mem_takeWhile_imp hc
  · rintro ⟨spaces, sign, digits, rest, h⟩
    cases hdigits : digits with
    | nil => exact absurd hdigits h.digits_ne
    | cons c cs =>
      have hc : c.isDigit = true := h.isDigit c (hdigits ▸ List.mem_cons_self)
      -- each part of the reader stops where the next part begins
      have hspaces : text.dropWhile isSpace = sign ++ c :: (cs ++ rest) := by
        rw [h.text, hdigits, List.dropWhile_append_of_pos h.spaces, List.cons_append]
        exact dropWhile_of_head (head_signed h.sign hc)
      have hsigned : takeSign (sign ++ c :: (cs ++ rest)) = (n.negative, c :: (cs ++ rest)) :=
        takeSign_append h.sign hc
      have htake : (c :: (cs ++ rest)).takeWhile Char.isDigit = digits := by
        rw [hdigits, ← List.cons_append, ← hdigits, List.takeWhile_append_of_pos h.isDigit,
          takeWhile_of_head h.rest, List.append_nil]
      unfold read
      simp only [hspaces, hsigned, htake, if_neg h.digits_ne, ← h.magnitude]

/-- The digits of a number, with or without a minus, are read as that number. -/
theorem read_signed {negative : Bool} {sign : List Char} (hsign : Sign negative sign) (n : Nat) :
    read (sign ++ Nat.toDigits 10 n) = some ⟨negative, n⟩ := by
  refine read_eq_some_iff.mpr ⟨[], sign, Nat.toDigits 10 n, [], ?_, ?_, hsign,
    Nat.toDigits_ne_nil, ?_, ?_, Nat.ofDigitChars_ten_toDigits.symm⟩
  · rw [List.append_nil, List.nil_append]
  · intro c hc
    cases hc
  · intro c hc
    exact Nat.isDigit_of_mem_toDigits (by decide) (by decide) hc
  · intro c hc
    cases hc

end Decimal
