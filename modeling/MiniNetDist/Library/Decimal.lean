import MiniNetDist.Library.Bytes
import MiniNetDist.Library.CharArray

/-! Numbers in texts, as the C library writes and reads them: `%d` and `%g` of `printf`, `atof`, and the cast of
the double that was read to an integer of 32 bits. -/

namespace MiniNetDist.Library.Decimal

def pow10 : Nat → Nat
  | 0 => 1
  | exponent + 1 => 10 * pow10 exponent

/-- Round a quotient to the nearest integer, and to the even one between two. -/
def roundEven (numerator denominator : Nat) : Nat :=
  let quotient := numerator / denominator
  let twice := 2 * (numerator % denominator)
  if twice < denominator ∨ twice = denominator ∧ quotient % 2 = 0 then quotient else quotient + 1

section Writing

def digits (value : Nat) : Bytes := (Nat.toDigits 10 value).map fun digit => .ofNat digit.toNat

/-- The format `%d`. -/
def formatD (value : Int) : Bytes := (if value < 0 then [45] else []) ++ digits value.natAbs

def stripZeros (text : Bytes) : Bytes := (text.reverse.dropWhile (· = 48)).reverse

def withFraction (whole fraction : Bytes) : Bytes :=
  if stripZeros fraction = [] then whole else whole ++ 46 :: stripZeros fraction

/-- The exponent of the first digit of a quotient that is not zero. -/
def leadingExponent (numerator denominator : Nat) : Int :=
  if denominator ≤ numerator then (Nat.toDigits 10 (numerator / denominator)).length - 1
  else -((List.range 400).find? fun shift => denominator ≤ numerator * pow10 shift).getD 0

/-- Six digits of a quotient that is not zero, and the exponent of the first of them. -/
def sixDigits (numerator denominator : Nat) : Nat × Int :=
  let exponent := leadingExponent numerator denominator
  let rounded := roundEven (numerator * pow10 (5 - exponent).toNat) (denominator * pow10 (exponent - 5).toNat)
  if rounded = 1000000 then (100000, exponent + 1) else (rounded, exponent)

def formatSix (rounded : Nat) (exponent : Int) : Bytes :=
  let text := digits rounded
  if exponent < -4 ∨ 6 ≤ exponent then
    let power := digits exponent.natAbs
    withFraction (text.take 1) (text.drop 1) ++ 101 :: (if exponent < 0 then 45 else 43) ::
      (if power.length < 2 then 48 :: power else power)
  else if 0 ≤ exponent then withFraction (text.take (exponent.toNat + 1)) (text.drop (exponent.toNat + 1))
  else withFraction [48] (List.replicate (exponent.natAbs - 1) 48 ++ text)

/-- The format `%g`, from the sign, the exponent and the fraction of a double. -/
def formatG (value : Float) : Bytes :=
  let bits := value.toBits.toNat
  let exponent := bits / 4503599627370496 % 2048
  let fraction := bits % 4503599627370496
  let mantissa := if exponent = 0 then fraction else fraction + 4503599627370496
  let power : Int := max exponent 1 - 1075
  let (rounded, leading) := sixDigits (mantissa <<< power.toNat) (1 <<< (-power).toNat)
  (if bits < 9223372036854775808 then [] else [45]) ++
    if exponent = 2047 then ascii (if fraction = 0 then "inf" else "nan")
    else if mantissa = 0 then [48]
    else formatSix rounded leading

end Writing

section Reading

def isDigit (byte : UInt8) : Bool := 48 ≤ byte && byte ≤ 57

def ofDigits (text : Bytes) : Nat := text.foldl (fun value digit => value * 10 + (digit.toNat - 48)) 0

/-- The number with this sign, these digits and this exponent. -/
structure Number where
  negative : Bool
  mantissa : Nat
  exponent : Int
  deriving DecidableEq, Repr

def readSign (text : Bytes) : Bool × Bytes :=
  if text.head? = some 45 then (true, text.tail)
  else if text.head? = some 43 then (false, text.tail)
  else (false, text)

def readExponent (text : Bytes) : Int :=
  if text.head? = some 101 ∨ text.head? = some 69 then
    let (negative, body) := readSign text.tail
    let power := ofDigits (body.takeWhile isDigit)
    if negative then -power else power
  else 0

/-- The digits after a point, and the text after them. -/
def readFraction (text : Bytes) : Bytes × Bytes :=
  if text.head? = some 46 then (text.tail.takeWhile isDigit, text.tail.dropWhile isDigit) else ([], text)

/-- The number that the longest numeral at the start of a text stands for; the double is the nearest to it. -/
def atof (text : Bytes) : Number :=
  let (negative, body) := readSign text
  let whole := body.takeWhile isDigit
  let (fraction, rest) := readFraction (body.dropWhile isDigit)
  if whole ++ fraction = [] then ⟨false, 0, 0⟩
  else ⟨negative, ofDigits (whole ++ fraction), readExponent rest - fraction.length⟩

/-- The integer part of the double nearest to a quotient below 2^53: a double has 53 bits, and those that the integer
part does not need are after the point. -/
def truncateDouble (numerator denominator : Nat) : Nat :=
  let whole := numerator / denominator
  let bits := if whole = 0 then 53 else 52 - whole.log2
  roundEven (numerator <<< bits) denominator >>> bits

/-- The cast of the double; one out of range gives the least integer. -/
def Number.toInt32 (number : Number) : BitVec 32 :=
  let magnitude := truncateDouble (number.mantissa * pow10 number.exponent.toNat) (pow10 (-number.exponent).toNat)
  let value : Int := if number.negative then -magnitude else magnitude
  if -2147483648 ≤ value ∧ value ≤ 2147483647 then BitVec.ofInt 32 value else 2147483648#32

def isSpace (byte : UInt8) : Bool := byte = 32 || (9 ≤ byte && byte ≤ 13)

/-- A number out of range gives the nearest that a `long long` has. -/
def atoll (text : Bytes) : BitVec 64 :=
  let (negative, body) := readSign (text.dropWhile isSpace)
  let magnitude := ofDigits (body.takeWhile isDigit)
  let value : Int := if negative then -magnitude else magnitude
  if value < -9223372036854775808 then BitVec.ofInt 64 (-9223372036854775808)
  else if 9223372036854775807 < value then 9223372036854775807#64
  else BitVec.ofInt 64 value

end Reading

section RoundTrip

theorem digit_bounds {char : Char} (digit : char.isDigit = true) : 48 ≤ char.toNat ∧ char.toNat ≤ 57 :=
  Char.isDigit_iff_toNat.mp digit

theorem isDigit_of_mem_digits {value : Nat} {byte : UInt8} (inside : byte ∈ digits value) : isDigit byte = true := by
  obtain ⟨char, printed, rfl⟩ := List.mem_map.mp inside
  have bounds := digit_bounds (Nat.isDigit_of_mem_toDigits (by decide) (by decide) printed)
  simp only [isDigit, Bool.and_eq_true, decide_eq_true_eq, UInt8.le_iff_toNat_le, UInt8.toNat_ofNat']
  exact ⟨by change 48 ≤ _; omega, by change _ ≤ 57; omega⟩

theorem digits_ne_nil (value : Nat) : digits value ≠ [] := by
  rw [digits, Ne, List.map_eq_nil_iff]
  exact Nat.toDigits_ne_nil

theorem length_digits_le {value limit : Nat} (positive : 0 < limit) (small : value < 10 ^ limit) :
    (digits value).length ≤ limit := by
  rw [digits, List.length_map]
  exact (Nat.length_toDigits_le_iff (by decide) positive).mpr small

theorem ofDigits_digits (value : Nat) : ofDigits (digits value) = value := by
  have step : ∀ chars : List Char, (∀ char ∈ chars, char.isDigit = true) → ∀ start : Nat,
      (chars.map fun digit => UInt8.ofNat digit.toNat).foldl (fun value digit => value * 10 + (digit.toNat - 48)) start =
        Nat.ofDigitChars 10 chars start := by
    intro chars
    induction chars with
    | nil =>
      intro _ start
      rw [Nat.ofDigitChars_nil, List.map_nil, List.foldl_nil]
    | cons char rest ih =>
      intro decimal start
      have bounds := digit_bounds (decimal char (List.mem_cons_self ..))
      have byte : (UInt8.ofNat char.toNat).toNat = char.toNat := by
        rw [UInt8.toNat_ofNat']
        omega
      have zero : (48 : Nat) = ('0' : Char).toNat := rfl
      rw [List.map_cons, List.foldl_cons, byte, ih (fun other inside => decimal other (List.mem_cons_of_mem _ inside)),
        Nat.ofDigitChars_cons, Nat.mul_comm, zero]
  have all : ∀ char ∈ Nat.toDigits 10 value, char.isDigit = true :=
    fun char printed => Nat.isDigit_of_mem_toDigits (by decide) (by decide) printed
  rw [ofDigits, digits, step _ all 0, Nat.ofDigitChars_ten_toDigits]

/-- The sign that was written is read. -/
theorem readSign_formatD (value : Int) : readSign (formatD value) = (decide (value < 0), digits value.natAbs) := by
  by_cases negative : value < 0
  · rw [formatD, if_pos negative, decide_eq_true negative]
    rfl
  · rw [formatD, if_neg negative, decide_eq_false negative, List.nil_append, readSign]
    cases shown : digits value.natAbs with
    | nil => exact absurd shown (digits_ne_nil _)
    | cons first rest =>
      have digit : isDigit first = true := isDigit_of_mem_digits (shown ▸ List.mem_cons_self ..)
      have minus : first ≠ 45 := by
        rintro rfl
        exact absurd digit (by decide)
      have plus : first ≠ 43 := by
        rintro rfl
        exact absurd digit (by decide)
      simp [minus, plus]

theorem takeWhile_digits (value : Nat) : (digits value).takeWhile isDigit = digits value :=
  List.takeWhile_eq_self_iff.mpr fun _ inside => isDigit_of_mem_digits inside

/-- The sign and the digits of an integer. -/
theorem signed_natAbs (value : Int) :
    (if decide (value < 0) = true then -(value.natAbs : Int) else value.natAbs) = value := by
  by_cases negative : value < 0
  · rw [if_pos (decide_eq_true negative)]
    omega
  · rw [if_neg (by simpa using negative)]
    omega

theorem atof_formatD (value : Int) : atof (formatD value) = ⟨decide (value < 0), value.natAbs, 0⟩ := by
  have rest : (digits value.natAbs).dropWhile isDigit = [] :=
    List.dropWhile_eq_nil_iff.mpr fun byte inside => isDigit_of_mem_digits inside
  rw [atof, readSign_formatD]
  simp only [takeWhile_digits, rest]
  rw [show readFraction [] = ([], []) from rfl]
  simp only [List.append_nil, if_neg (digits_ne_nil _), ofDigits_digits]
  rfl

theorem roundEven_one (value : Nat) : roundEven value 1 = value := by
  rw [roundEven, Nat.mod_one, Nat.div_one]
  exact if_pos (.inl (by decide))

/-- An integer is a double. -/
theorem truncateDouble_one (value : Nat) : truncateDouble value 1 = value := by
  rw [truncateDouble]
  simp only [roundEven_one, Nat.shiftLeft_shiftRight]

/-- An integer of 32 bits that was written as a numeral is read back. -/
theorem toInt32_atof_formatD (value : BitVec 32) : (atof (formatD value.toInt)).toInt32 = value := by
  rw [atof_formatD, Number.toInt32]
  have magnitude : truncateDouble (value.toInt.natAbs * pow10 (0 : Int).toNat) (pow10 (-(0 : Int)).toNat) =
      value.toInt.natAbs := by
    change truncateDouble (value.toInt.natAbs * 1) 1 = value.toInt.natAbs
    rw [Nat.mul_one, truncateDouble_one]
  have least := BitVec.le_toInt value
  have most := BitVec.toInt_lt (x := value)
  simp only [magnitude, signed_natAbs]
  rw [if_pos ⟨by omega, by omega⟩, BitVec.ofInt_toInt]

theorem notMem_formatD {byte : UInt8} (value : Int) (sign : byte ≠ 45) (other : isDigit byte = false) :
    byte ∉ formatD value := by
  intro inside
  rw [formatD, List.mem_append] at inside
  rcases inside with minus | digit
  · split at minus
    · exact sign (List.mem_singleton.mp minus)
    · cases minus
  · exact absurd (isDigit_of_mem_digits digit) (by simp [other])

theorem length_formatD_le (value : BitVec 64) : (formatD value.toInt).length ≤ 20 := by
  have least := BitVec.le_toInt value
  have most := BitVec.toInt_lt (x := value)
  have short : (digits value.toInt.natAbs).length ≤ 19 := length_digits_le (by decide) (by omega)
  rw [formatD, List.length_append]
  split
  · rw [List.length_singleton]
    omega
  · rw [List.length_nil]
    omega

theorem head?_formatD_not_space (value : Int) : ∀ byte ∈ (formatD value).head?, isSpace byte = false := by
  intro byte first
  by_cases negative : value < 0
  · rw [formatD, if_pos negative] at first
    cases first
    rfl
  · rw [formatD, if_neg negative, List.nil_append] at first
    have digit : isDigit byte = true := isDigit_of_mem_digits (List.mem_of_mem_head? first)
    simp only [isDigit, isSpace, Bool.and_eq_true, decide_eq_true_eq, UInt8.le_iff_toNat_le] at digit ⊢
    have least : 48 ≤ byte.toNat := digit.1
    have notBlank : byte ≠ 32 := by
      rintro rfl
      exact absurd least (by decide)
    have notControl : ¬byte.toNat ≤ (13 : UInt8).toNat := by
      change ¬byte.toNat ≤ 13
      omega
    simp only [notBlank, notControl, decide_false, Bool.and_false, Bool.or_false]

theorem dropWhile_formatD (value : Int) : (formatD value).dropWhile isSpace = formatD value := by
  cases shown : formatD value with
  | nil => rfl
  | cons first rest =>
    have clear := head?_formatD_not_space value first (by rw [shown]; rfl)
    rw [List.dropWhile_cons_of_neg (by simp [clear])]

theorem atoll_formatD (value : BitVec 64) : atoll (formatD value.toInt) = value := by
  have least := BitVec.le_toInt value
  have most := BitVec.toInt_lt (x := value)
  rw [atoll, dropWhile_formatD, readSign_formatD]
  simp only [takeWhile_digits, ofDigits_digits, signed_natAbs]
  rw [if_neg (by omega), if_neg (by omega), BitVec.ofInt_toInt]

end RoundTrip

end MiniNetDist.Library.Decimal
