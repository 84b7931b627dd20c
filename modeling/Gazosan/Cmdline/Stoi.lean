import Gazosan.Context
import Mathlib.Data.List.TakeWhile
import Mathlib.Data.Nat.Digits.Defs

/-!
# Integers in arguments

`std::stoi` with base 10, as the parser uses it: it skips white space, reads an
optional sign and as many digits as there are, and ignores what follows.  It
raises `std::invalid_argument` if there is no digit and `std::out_of_range` if
the number does not fit in a 32-bit `int`.

`IntPrefix` says the same without a cursor, and `stoi_ok_iff`,
`stoi_invalidArgument_iff` and `stoi_outOfRange_iff` compare the two.
-/

namespace Gazosan

/-- `isspace` in the C locale. -/
def isSpace (c : Char) : Bool := c == ' ' || ('\t'.toNat ≤ c.toNat && c.toNat ≤ '\r'.toNat)

/-- The number a list of digits denotes, the first digit being the highest. -/
def digitsValue (digits : List Char) : Nat :=
  Nat.ofDigits 10 (digits.reverse.map fun c => c.toNat - '0'.toNat)

/-- An optional sign, as a factor, and what follows. -/
def readSign : List Char → Int × List Char
  | '+' :: cs => (1, cs)
  | '-' :: cs => (-1, cs)
  | cs => (1, cs)

/-- The range of `int`. -/
def FitsInt (n : Int) : Prop := -2 ^ 31 ≤ n ∧ n < 2 ^ 31

instance (n : Int) : Decidable (FitsInt n) := inferInstanceAs (Decidable (_ ∧ _))

/-- `std::stoi(str)`. -/
def stoi (str : String) : Except Exception Int :=
  let (sign, cs) := readSign (str.toList.dropWhile isSpace)
  let digits := cs.takeWhile Char.isDigit
  if digits.isEmpty then .error .invalidArgument
  else if FitsInt (sign * digitsValue digits) then .ok (sign * digitsValue digits)
  else .error .outOfRange

example : stoi " +12px" = .ok 12 := by decide

example : stoi "- 12" = .error .invalidArgument := by decide

/-! ## Integer prefixes -/

/-- The spellings of a sign, with the factor they stand for. -/
def signs : List (List Char × Int) := [([], 1), (['+'], 1), (['-'], -1)]

/-- A text begins with the integer `n`: white space, a sign or none, at least
one digit and then no further digit. -/
def IntPrefix (text : List Char) (n : Int) : Prop :=
  ∃ space sign factor digits rest, text = space ++ sign ++ digits ++ rest ∧
    (∀ c ∈ space, isSpace c) ∧ (sign, factor) ∈ signs ∧
    digits ≠ [] ∧ (∀ c ∈ digits, c.isDigit) ∧ (∀ c ∈ rest.head?, ¬ c.isDigit) ∧
    n = factor * digitsValue digits

theorem isSpace_of_isDigit {c : Char} (h : c.isDigit = true) : isSpace c = false := by
  have hd : 48 ≤ c.toNat ∧ c.toNat ≤ 57 := by simpa [Char.isDigit, UInt32.le_iff_toNat_le] using h
  have hs : c ≠ ' ' := by
    intro hc
    rw [hc] at h
    exact absurd h (by decide)
  have hr : ¬ c.toNat ≤ 13 := by omega
  simp only [isSpace, beq_eq_false_iff_ne.mpr hs, Char.reduceToNat, hr, decide_false,
    Bool.and_false, Bool.or_self]

theorem sign_isSpace : ∀ p ∈ signs, ∀ c ∈ p.1, isSpace c = false := by
  intro p hp c hc
  simp only [signs, List.mem_cons, List.not_mem_nil, or_false] at hp
  rcases hp with rfl | rfl | rfl
  · cases hc
  · rw [List.mem_singleton.mp hc]
    decide
  · rw [List.mem_singleton.mp hc]
    decide

/-- A digit is not a sign. -/
theorem readSign_digits {digits rest : List Char} (hne : digits ≠ [])
    (hd : ∀ c ∈ digits, c.isDigit) : readSign (digits ++ rest) = (1, digits ++ rest) := by
  cases digits with
  | nil => exact absurd rfl hne
  | cons c cs =>
      have hc : c.isDigit := hd c List.mem_cons_self
      rw [List.cons_append, readSign]
      · rintro tail ⟨rfl, -⟩
        exact absurd hc (by decide)
      · rintro tail ⟨rfl, -⟩
        exact absurd hc (by decide)

theorem readSign_sign {sign digits rest : List Char} {factor : Int}
    (hs : (sign, factor) ∈ signs) (hne : digits ≠ []) (hd : ∀ c ∈ digits, c.isDigit) :
    readSign (sign ++ (digits ++ rest)) = (factor, digits ++ rest) := by
  simp only [signs, List.mem_cons, Prod.mk.injEq, List.not_mem_nil, or_false] at hs
  rcases hs with ⟨rfl, rfl⟩ | ⟨rfl, rfl⟩ | ⟨rfl, rfl⟩
  · rw [List.nil_append, readSign_digits hne hd]
  · rfl
  · rfl

/-- What `readSign` splits off is one of the spellings. -/
theorem readSign_eq (cs : List Char) :
    ∃ sign, (sign, (readSign cs).1) ∈ signs ∧ cs = sign ++ (readSign cs).2 := by
  fun_cases readSign cs with
  | case1 cs => exact ⟨['+'], by simp [signs], rfl⟩
  | case2 cs => exact ⟨['-'], by simp [signs], rfl⟩
  | case3 cs => exact ⟨[], by simp [signs], rfl⟩

theorem takeWhile_digits {digits rest : List Char} (hd : ∀ c ∈ digits, c.isDigit)
    (hr : ∀ c ∈ rest.head?, ¬ c.isDigit) :
    (digits ++ rest).takeWhile Char.isDigit = digits := by
  have hrest : rest.takeWhile Char.isDigit = [] := by
    cases rest with
    | nil => rfl
    | cons c cs => exact List.takeWhile_cons_of_neg (hr c rfl)
  rw [List.takeWhile_append_of_pos hd, hrest, List.append_nil]

/-- The scan of `stoi` finds the integer prefix. -/
theorem stoi_of_intPrefix {str : String} {n : Int} (h : IntPrefix str.toList n) :
    stoi str = if FitsInt n then .ok n else .error .outOfRange := by
  obtain ⟨space, sign, factor, digits, rest, htext, hspace, hsign, hne, hd, hr, rfl⟩ := h
  have hdrop : str.toList.dropWhile isSpace = sign ++ (digits ++ rest) := by
    rw [htext, List.append_assoc, List.append_assoc, List.dropWhile_append_of_pos hspace]
    cases sign with
    | nil =>
        cases digits with
        | nil => exact absurd rfl hne
        | cons c cs =>
            exact List.dropWhile_cons_of_neg (by
              simp [isSpace_of_isDigit (hd c List.mem_cons_self)])
    | cons c cs =>
        exact List.dropWhile_cons_of_neg (by
          simp [sign_isSpace _ hsign c List.mem_cons_self])
  have hempty : digits.isEmpty = false := by simpa using hne
  simp only [stoi, hdrop, readSign_sign hsign hne hd, takeWhile_digits hd hr, hempty]
  simp

/-- Where `stoi` finds a digit there is an integer prefix. -/
theorem intPrefix_of_stoi_ne {str : String} (h : stoi str ≠ .error .invalidArgument) :
    ∃ n, IntPrefix str.toList n := by
  obtain ⟨sign, hsign, hcs⟩ := readSign_eq (str.toList.dropWhile isSpace)
  let cs := (readSign (str.toList.dropWhile isSpace)).2
  refine ⟨_, str.toList.takeWhile isSpace, sign, _, cs.takeWhile Char.isDigit,
    cs.dropWhile Char.isDigit, ?_, fun c => List.mem_takeWhile_imp, hsign, ?_,
    fun c => List.mem_takeWhile_imp, ?_, rfl⟩
  · rw [List.append_assoc, List.takeWhile_append_dropWhile, List.append_assoc, ← hcs,
      List.takeWhile_append_dropWhile]
  · intro hnil
    exact h (by simp only [stoi]; exact if_pos (by simpa using hnil))
  · intro c hc
    rw [Option.mem_def] at hc
    have := List.head?_dropWhile_not Char.isDigit cs
    rw [hc] at this
    simpa using this

/-- A text begins with at most one integer. -/
theorem IntPrefix.unique {str : String} {m n : Int} (hm : IntPrefix str.toList m)
    (hn : IntPrefix str.toList n) (hfits : FitsInt m) : m = n := by
  have h := (stoi_of_intPrefix hm).symm.trans (stoi_of_intPrefix hn)
  rw [if_pos hfits] at h
  by_cases hf : FitsInt n
  · rw [if_pos hf] at h
    exact Except.ok.inj h
  · rw [if_neg hf] at h
    cases h

/-! ## The three outcomes -/

theorem stoi_ok_iff (str : String) (n : Int) :
    stoi str = .ok n ↔ IntPrefix str.toList n ∧ FitsInt n := by
  constructor
  · intro h
    obtain ⟨m, hm⟩ := intPrefix_of_stoi_ne (by rw [h]; nofun)
    rw [stoi_of_intPrefix hm] at h
    by_cases hf : FitsInt m
    · rw [if_pos hf] at h
      cases h
      exact ⟨hm, hf⟩
    · rw [if_neg hf] at h
      cases h
  · rintro ⟨hn, hf⟩
    rw [stoi_of_intPrefix hn, if_pos hf]

theorem stoi_invalidArgument_iff (str : String) :
    stoi str = .error .invalidArgument ↔ ¬ ∃ n, IntPrefix str.toList n := by
  constructor
  · rintro h ⟨n, hn⟩
    rw [stoi_of_intPrefix hn] at h
    split at h
    · cases h
    · cases h
  · intro h
    by_contra hne
    exact h (intPrefix_of_stoi_ne hne)

theorem stoi_outOfRange_iff (str : String) :
    stoi str = .error .outOfRange ↔ ∃ n, IntPrefix str.toList n ∧ ¬ FitsInt n := by
  constructor
  · intro h
    obtain ⟨n, hn⟩ := intPrefix_of_stoi_ne (by rw [h]; nofun)
    rw [stoi_of_intPrefix hn] at h
    by_cases hf : FitsInt n
    · rw [if_pos hf] at h
      cases h
    · exact ⟨n, hn, hf⟩
  · rintro ⟨n, hn, hf⟩
    rw [stoi_of_intPrefix hn, if_neg hf]

end Gazosan
