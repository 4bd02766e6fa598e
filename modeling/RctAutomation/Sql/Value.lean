import Mathlib.Data.List.TakeWhile
import Mathlib.Data.Nat.Digits.Lemmas
import Mathlib.Data.Rat.Defs
import RctAutomation.Int32

/-!
# SQLite values, column affinity and their readings

A column of SQLite has no type but an *affinity*, derived from the words of
its declared type (`affinityOf`), and a value stored in it is converted
according to that affinity (`Affinity.apply`). The conversion that matters is
the numeric one: a text that reads as a number is stored as that number, so
two texts can become one value.

What is read back is whatever the reader asks for: `Value.toText` is the text
of a value and `Value.toInt64` its integer, and each is defined on every
value.

The conversions between text and binary floating point are SQLite's own and
stay a parameter, `FloatOps`.
-/

namespace Sql

/-- Strings are sequences of bytes. They are stored, compared and handed over
byte by byte, and nothing here depends on how they encode characters. -/
abbrev Bytes := List UInt8

/-- The bytes of an ASCII literal. -/
def ascii (s : String) : Bytes := s.toList.map (fun c => c.toNat.toUInt8)

/-- **A stored value**, by its storage class. Blobs are left out: a program
that binds all its strings as texts stores none. -/
inductive Value
  | null
  | integer (n : ℤ)
  | real (q : ℚ)
  | text (b : Bytes)
  deriving DecidableEq, Inhabited

/-- A number, as it is stored: an integer, or a floating-point number, whose
value is a rational. Two numbers can have one value in different classes. -/
inductive Number
  | integer (n : ℤ)
  | real (q : ℚ)
  deriving DecidableEq

/-- The stored value that is the number. -/
def Number.toValue : Number → Value
  | integer n => .integer n
  | real q => .real q

/-- **The conversions that go through binary floating point.** They are the
two places where the content of a database depends on how decimals are
rounded, so they are a parameter, and what is proved holds whatever they do. -/
structure FloatOps where
  /-- What a numeric column stores for a well-formed number that is not the
  text of a 64-bit integer. -/
  ofLiteral : Bytes → Number
  /-- The text of a stored floating-point number. -/
  print : ℚ → Bytes

namespace Value

/-- **Equality as SQL compares**: a null equals nothing, not even a null;
numbers are compared by their value whatever their storage class; and a text
only equals a text. Unique columns and the conditions of queries go by it. -/
def same : Value → Value → Bool
  | integer a, integer b => a == b
  | real a, real b => a == b
  | integer a, real b => (a : ℚ) == b
  | real a, integer b => a == (b : ℚ)
  | text a, text b => a == b
  | _, _ => false

@[simp] theorem same_null_left (v : Value) : same null v = false := by
  cases v <;> rfl

@[simp] theorem same_null_right (v : Value) : same v null = false := by
  cases v <;> rfl

@[simp] theorem same_integer (a b : ℤ) : same (integer a) (integer b) = (a == b) := rfl

@[simp] theorem same_text (a b : Bytes) : same (text a) (text b) = (a == b) := rfl

theorem same_self {v : Value} (h : v ≠ null) : same v v = true := by
  cases v with
  | null => exact absurd rfl h
  | integer n => exact beq_self_eq_true n
  | real q => exact beq_self_eq_true q
  | text b => exact beq_self_eq_true b

theorem same_comm (v w : Value) : same v w = same w v := by
  cases v <;> cases w <;> simp [same, Bool.beq_comm]

/-- Values that equal the same value equal one another. -/
theorem same_trans {u v w : Value} (h : same u v = true) (h' : same v w = true) :
    same u w = true := by
  cases u <;> cases v <;> cases w <;> simp only [same, beq_iff_eq, Bool.false_eq_true] at h h' ⊢ <;>
    first | exact_mod_cast h.trans h' | exact h ▸ h' | exact h' ▸ h

/-- The order of values in `ORDER BY`: nulls first, then numbers by their
value, then texts. Ties remain between values that compare as the same. -/
def le : Value → Value → Bool
  | null, _ => true
  | _, null => false
  | integer a, integer b => a ≤ b
  | integer a, real b => (a : ℚ) ≤ b
  | real a, integer b => a ≤ (b : ℚ)
  | real a, real b => a ≤ b
  | integer _, text _ => true
  | real _, text _ => true
  | text _, integer _ => false
  | text _, real _ => false
  | text a, text b => !decide (b < a)

end Value

/-! ## Numbers written as text -/

/-- The white space a number may be surrounded by. -/
def isSpace (c : UInt8) : Bool := c == 32 || (9 ≤ c && c ≤ 13)

def isDigit (c : UInt8) : Bool := 48 ≤ c && c ≤ 57

/-- A text without the white space around it, which SQLite skips before it
looks for a number. -/
def trim (b : Bytes) : Bytes :=
  ((b.dropWhile isSpace).reverse.dropWhile isSpace).reverse

/-- The sign in front of a number – whether it is negative – and the rest. -/
def splitSign : Bytes → Bool × Bytes
  | [] => (false, [])
  | c :: r => if c = 45 then (true, r) else if c = 43 then (false, r) else (false, c :: r)

/-- The value of a sequence of decimal digits. -/
def readNat (ds : Bytes) : ℕ := ds.foldl (fun n c => 10 * n + (c.toNat - 48)) 0

/-- The number a sign and a sequence of digits stand for. -/
def readInt (neg : Bool) (ds : Bytes) : ℤ := if neg then -(readNat ds : ℤ) else readNat ds

/-- The integer a text is a literal of, if it is one: an optional sign and at
least one digit, and nothing else but white space around them. It is not
bounded here; whether it is stored as an integer is decided by `fitsInt64`. -/
def intLiteral? (b : Bytes) : Option ℤ :=
  let (neg, ds) := splitSign (trim b)
  if ds ≠ [] ∧ ds.all isDigit then some (readInt neg ds) else none

/-- The exponent of a real literal: absent, or `e` and a signed sequence of
digits, of which there is at least one. -/
def isExponent : Bytes → Bool
  | [] => true
  | c :: r =>
    let ds := (splitSign r).2
    (c == 101 || c == 69) && !ds.isEmpty && ds.all isDigit

/-- The text is a literal of a real: digits, a fraction and an exponent, with
at least one digit before the exponent, on either side of the point. An
integer literal is one, too. -/
def isRealLiteral (b : Bytes) : Bool :=
  let r := (splitSign (trim b)).2
  let whole := r.takeWhile isDigit
  match r.dropWhile isDigit with
  | 46 :: t => !(whole ++ t.takeWhile isDigit).isEmpty && isExponent (t.dropWhile isDigit)
  | t => !whole.isEmpty && isExponent t

/-- The decimal digits of a natural number. -/
def digitsOf (n : ℕ) : Bytes :=
  if n = 0 then [48] else (Nat.digits 10 n).reverse.map (fun d => UInt8.ofNat (48 + d))

/-- The text of an integer: what a text column stores for it, and what a
reader gets that asks for the text of an integer. -/
def decimal (n : ℤ) : Bytes :=
  if n < 0 then 45 :: digitsOf n.natAbs else digitsOf n.natAbs

/-- The integer is a 64-bit signed one. -/
def fitsInt64 (n : ℤ) : Bool := -9223372036854775808 ≤ n && n ≤ 9223372036854775807

/-- An integer brought into the 64-bit range, as conversions saturate: a text
of more digits than fit reads as the largest integer. -/
def clampInt64 (n : ℤ) : ℤ := max (-9223372036854775808) (min n 9223372036854775807)

/-- The integer a text starts with, white space skipped, and `0` where it
starts with none. Unlike `intLiteral?` it does not ask what follows: the text
`7 songs` reads as seven. -/
def intPrefix (b : Bytes) : ℤ :=
  let (neg, r) := splitSign (b.dropWhile isSpace)
  readInt neg (r.takeWhile isDigit)

/-- Conversions that know whole numbers only. They behave as SQLite's do on
inputs without a fraction or an exponent, and serve the concrete databases on
which results are shown to apply. -/
def FloatOps.whole : FloatOps := ⟨fun b => .integer (intPrefix b), fun q => decimal q.floor⟩

/-! ### Reading back what was printed -/

theorem foldl_digits (ds : List ℕ) (h : ∀ d ∈ ds, d < 10) (n : ℕ) :
    (ds.map (fun d => UInt8.ofNat (48 + d))).foldl (fun n c => 10 * n + (c.toNat - 48)) n
      = ds.foldl (fun n d => 10 * n + d) n := by
  induction ds generalizing n with
  | nil => rfl
  | cons d ds ih =>
    have hd : d < 10 := h d (List.mem_cons_self ..)
    rw [List.map_cons, List.foldl_cons, List.foldl_cons,
      ih (fun e he => h e (List.mem_cons_of_mem _ he))]
    congr 1
    simp only [UInt8.toNat_ofNat']
    omega

/-- **Reading the digits of a number gives the number.** -/
theorem readNat_digitsOf (n : ℕ) : readNat (digitsOf n) = n := by
  unfold readNat digitsOf
  split
  · rename_i h
    rw [h]
    rfl
  · rw [foldl_digits _ (fun d hd => Nat.digits_lt_base (by omega) (List.mem_reverse.mp hd)),
      List.foldl_reverse]
    conv_rhs => rw [← Nat.ofDigits_digits 10 n, Nat.ofDigits_eq_foldr]
    congr 1
    funext d m
    simp only [Nat.cast_id]
    omega

theorem isDigit_ofNat {d : ℕ} (h : d < 10) : isDigit (UInt8.ofNat (48 + d)) = true := by
  unfold isDigit
  interval_cases d <;> rfl

theorem digitsOf_all (n : ℕ) : (digitsOf n).all isDigit = true := by
  unfold digitsOf
  split
  · rfl
  · rw [List.all_map, List.all_eq_true]
    intro d hd
    exact isDigit_ofNat (Nat.digits_lt_base (by omega) (List.mem_reverse.mp hd))

theorem digitsOf_ne_nil (n : ℕ) : digitsOf n ≠ [] := by
  unfold digitsOf
  split
  · exact List.cons_ne_nil _ _
  · rename_i hn
    simpa [Nat.digits_eq_nil_iff_eq_zero] using hn

/-- The first character of a number that is not negative is a digit. -/
theorem splitSign_digitsOf_append (n : ℕ) (b : Bytes) :
    splitSign (digitsOf n ++ b) = (false, digitsOf n ++ b) := by
  obtain ⟨c, r, hr⟩ := List.exists_cons_of_ne_nil (digitsOf_ne_nil n)
  have hc : isDigit c = true :=
    List.all_eq_true.mp (digitsOf_all n) c (by rw [hr]; exact List.mem_cons_self ..)
  have h45 : c ≠ 45 := by rintro rfl; exact absurd hc (by decide)
  have h43 : c ≠ 43 := by rintro rfl; exact absurd hc (by decide)
  rw [hr]
  simp [splitSign, h45, h43]

/-- The sign of a number, and its digits with what follows them. -/
theorem splitSign_decimal_append (n : ℤ) (b : Bytes) :
    splitSign (decimal n ++ b) = (decide (n < 0), digitsOf n.natAbs ++ b) := by
  unfold decimal
  split
  · rename_i h
    simp [splitSign, h]
  · rename_i h
    rw [splitSign_digitsOf_append]
    simp [h]

theorem splitSign_decimal (n : ℤ) :
    splitSign (decimal n) = (decide (n < 0), digitsOf n.natAbs) := by
  have h := splitSign_decimal_append n []
  rwa [List.append_nil, List.append_nil] at h

/-- A number is written with digits and a minus sign only. -/
theorem notMem_decimal {c : UInt8} (hdigit : isDigit c = false) (hminus : c ≠ 45) (n : ℤ) :
    c ∉ decimal n := by
  have hdigits : c ∉ digitsOf n.natAbs := fun h =>
    absurd (List.all_eq_true.mp (digitsOf_all _) c h) (by rw [hdigit]; exact Bool.false_ne_true)
  unfold decimal
  split
  · exact List.not_mem_cons_of_ne_of_not_mem hminus hdigits
  · exact hdigits

theorem isSpace_of_isDigit {c : UInt8} (h : isDigit c = true) : isSpace c = false := by
  unfold isDigit at h
  unfold isSpace
  simp only [Bool.and_eq_true, decide_eq_true_eq, Bool.or_eq_false_iff, beq_eq_false_iff_ne,
    Bool.and_eq_false_iff, decide_eq_false_iff_not, UInt8.le_iff_toNat_le] at h ⊢
  refine ⟨?_, Or.inr ?_⟩
  · rintro rfl
    exact absurd h.1 (by decide)
  · have : (48 : UInt8).toNat = 48 := rfl
    have : (13 : UInt8).toNat = 13 := rfl
    omega

/-- A number is printed without white space in front of it. -/
theorem dropWhile_isSpace_decimal (n : ℤ) : (decimal n).dropWhile isSpace = decimal n := by
  unfold decimal
  split
  · rfl
  · cases h : digitsOf n.natAbs with
    | nil => rfl
    | cons c r =>
      have hc : isDigit c = true :=
        List.all_eq_true.mp (digitsOf_all n.natAbs) c (by rw [h]; exact List.mem_cons_self ..)
      rw [List.dropWhile_cons, isSpace_of_isDigit hc]
      rfl

theorem readInt_natAbs (n : ℤ) : readInt (decide (n < 0)) (digitsOf n.natAbs) = n := by
  unfold readInt
  rw [readNat_digitsOf]
  by_cases h : n < 0
  · simp only [h, decide_true, if_true]
    omega
  · simp only [h, decide_false, Bool.false_eq_true, if_false]
    omega

/-- **An integer is read back from its text.** So a list of integers that
goes through a text, as `group_concat` makes one, comes back as it was. -/
theorem intPrefix_decimal (n : ℤ) : intPrefix (decimal n) = n := by
  unfold intPrefix
  rw [dropWhile_isSpace_decimal, splitSign_decimal]
  have hall : ∀ c ∈ digitsOf n.natAbs, isDigit c = true :=
    List.all_eq_true.mp (digitsOf_all _)
  simp only [List.takeWhile_eq_self_iff.mpr hall]
  exact readInt_natAbs n

/-! ## Affinity -/

/-- The affinity of a column: what SQLite would rather have stored in it. It
is a preference and not a type; where a value has no form of the preferred
class it is stored as it is. -/
inductive Affinity
  | integer | text | blob | real | numeric
  deriving DecidableEq

/-- Whether the letters of a word occur in another. -/
def occursIn (w : List Char) : List Char → Bool
  | [] => w.isEmpty
  | c :: r => w.isPrefixOf (c :: r) || occursIn w r

/-- **The affinity of a declared type**, by SQLite's rules in their order:
the first word that occurs decides. A type that contains none of them, such
as `STRING`, has numeric affinity – so a column declared as a string stores
the text `01` as the number one. -/
def affinityOf (decl : String) : Affinity :=
  let d := decl.toList
  if occursIn "INT".toList d then .integer
  else if occursIn "CHAR".toList d || occursIn "CLOB".toList d || occursIn "TEXT".toList d then
    .text
  else if occursIn "BLOB".toList d || d.isEmpty then .blob
  else if occursIn "REAL".toList d || occursIn "FLOA".toList d || occursIn "DOUB".toList d then
    .real
  else .numeric

/-- A type that SQLite does not know is numeric, whatever it is called. -/
example : affinityOf "STRING" = .numeric := by decide

example : affinityOf "INTEGER" = .integer := by decide

variable (fp : FloatOps)

/-- What a numeric column stores for a text: the number it is a literal of,
and the text itself where it is none. An integer literal that does not fit 64
bits becomes a floating-point number. -/
def numericOfText (b : Bytes) : Value :=
  match intLiteral? b with
  | some n => if fitsInt64 n then .integer n else (fp.ofLiteral b).toValue
  | none => if isRealLiteral b then (fp.ofLiteral b).toValue else .text b

theorem dropWhile_concat_of_not {α : Type} {p : α → Bool} {a : α} (ha : p a = false) (l : List α) :
    (l ++ [a]).dropWhile p = l.dropWhile p ++ [a] := by
  induction l with
  | nil => simp [ha]
  | cons x l ih =>
    by_cases hx : p x = true
    · rw [List.cons_append, List.dropWhile_cons_of_pos hx, List.dropWhile_cons_of_pos hx, ih]
    · rw [List.cons_append, List.dropWhile_cons_of_neg hx, List.dropWhile_cons_of_neg hx]
      rfl

theorem takeWhile_concat_of_not {α : Type} {p : α → Bool} {a : α} (ha : p a = false) (l : List α) :
    (l ++ [a]).takeWhile p = l.takeWhile p := by
  induction l with
  | nil => simp [ha]
  | cons x l ih =>
    by_cases hx : p x = true
    · rw [List.cons_append, List.takeWhile_cons_of_pos hx, List.takeWhile_cons_of_pos hx, ih]
    · rw [List.cons_append, List.takeWhile_cons_of_neg hx, List.takeWhile_cons_of_neg hx]

/-- **A text that starts with a letter is no number**, and is stored as it
is. Names mostly are of this kind, and what comes from the numeric affinity
of their columns does not reach them. -/
theorem numericOfText_of_letter {c : UInt8} {r : Bytes} (hspace : isSpace c = false)
    (hdigit : isDigit c = false) (hsign : c ≠ 45 ∧ c ≠ 43) (hpoint : c ≠ 46) :
    numericOfText fp (c :: r) = .text (c :: r) := by
  obtain ⟨r', htrim⟩ : ∃ r', trim (c :: r) = c :: r' := by
    unfold trim
    rw [List.dropWhile_cons_of_neg (by rw [hspace]; exact Bool.false_ne_true),
      List.reverse_cons, dropWhile_concat_of_not hspace]
    exact ⟨(r.reverse.dropWhile isSpace).reverse, by simp⟩
  have hsplit : splitSign (c :: r') = (false, c :: r') := by
    show (if c = 45 then _ else _) = _
    rw [if_neg hsign.1, if_neg hsign.2]
  have hint : intLiteral? (c :: r) = none := by
    unfold intLiteral?
    rw [htrim, hsplit]
    simp [hdigit]
  have hreal : isRealLiteral (c :: r) = false := by
    have hneg : ¬isDigit c = true := by rw [hdigit]; exact Bool.false_ne_true
    unfold isRealLiteral
    rw [htrim, hsplit]
    dsimp only
    rw [List.takeWhile_cons_of_neg hneg, List.dropWhile_cons_of_neg hneg]
    split
    · rename_i heq
      exact absurd (List.cons.inj heq).1 hpoint
    · rfl
  unfold numericOfText
  rw [hint]
  dsimp only
  rw [hreal]
  rfl

/-- Every text is stored as something. -/
theorem numericOfText_ne_null (b : Bytes) : numericOfText fp b ≠ .null := by
  have hnum : ∀ x : Number, x.toValue ≠ .null := by
    intro x
    cases x <;> exact fun h => (by cases h)
  unfold numericOfText
  cases intLiteral? b with
  | some n =>
    dsimp only
    split
    · exact fun h => (by cases h)
    · exact hnum _
  | none =>
    dsimp only
    split
    · exact hnum _
    · exact fun h => (by cases h)

namespace Value

/-- The text of a value, as `sqlite3_column_text` gives it; a null has the
empty one. -/
def toText : Value → Bytes
  | null => []
  | integer n => decimal n
  | real q => fp.print q
  | text b => b

/-- The 64-bit integer of a value: a real is cut towards zero, and a text
read as far as it is an integer. -/
def toInt64 : Value → ℤ
  | null => 0
  | integer n => n
  | real q => clampInt64 (q.num.tdiv q.den)
  | text b => clampInt64 (intPrefix b)

/-- The 32-bit integer of a value: the low 32 bits of its 64-bit one. Reading
a column as an `int` cuts it off without saying so. -/
def toColumnInt (v : Value) : ℤ := toInt32 v.toInt64

@[simp] theorem toColumnInt_integer (n : ℤ) : toColumnInt (integer n) = toInt32 n := rfl

@[simp] theorem toColumnInt_null : toColumnInt null = 0 := by decide

end Value

/-- **The conversion of a value stored in a column.** A text becomes the
number it spells where the column prefers numbers, and a number becomes text
where it prefers text; what cannot be converted stays as it is. -/
def Affinity.apply : Affinity → Value → Value
  | .integer, .text b => numericOfText fp b
  | .numeric, .text b => numericOfText fp b
  | .text, .integer n => .text (decimal n)
  | .text, .real q => .text (fp.print q)
  | .real, .integer n => .real n
  | .real, .text b =>
    match numericOfText fp b with
    | .integer n => .real n
    | v => v
  | _, v => v

@[simp] theorem Affinity.apply_null (a : Affinity) : a.apply fp .null = .null := by
  cases a <;> rfl

@[simp] theorem Affinity.apply_numeric_integer (n : ℤ) :
    Affinity.numeric.apply fp (.integer n) = .integer n := rfl

end Sql
