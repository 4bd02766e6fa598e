import Mathlib.Data.Int.Basic
import Mathlib.Data.List.Basic
import Mathlib.Tactic.Ring

/-!
# The wire format of protocol buffers

A message is written as its fields, one after the other. Each is a tag – its
number and a wire type – and a payload, and integers are varints: groups of
seven bits, the lowest first. A reader knows a field by its number and what to
do with it by its wire type, and the bytes do not say what message they are.

`parse` reads a message of any type, given what a field does to it, and
`parse_encode` says what it makes of fields that were written. Groups, which
are long deprecated, are not read.
-/

namespace Wire

/-! ## Varints -/

/-- A number in at most so many groups and one, all but the last with the
high bit set. A number that needs more groups is cut off. -/
def groups : ℕ → ℕ → List UInt8
  | 0, n => [n.toUInt8]
  | k + 1, n => if n < 128 then [n.toUInt8] else (n % 128 + 128).toUInt8 :: groups k (n / 128)

/-- The number in at most so many groups, and the bytes after it. It cannot
be read if the bytes end within it, or if the last of so many groups has the
high bit set. -/
def readGroups : ℕ → List UInt8 → Option (ℕ × List UInt8)
  | 0, _ => none
  | _, [] => none
  | k + 1, b :: rest =>
    if b.toNat < 128 then some (b.toNat, rest)
    else (readGroups k rest).map fun x => (b.toNat - 128 + 128 * x.1, x.2)

/-- A varint has at most ten bytes, which is room for 64 bits in groups of
seven. -/
def varint (n : ℕ) : List UInt8 := groups 9 n

/-- The varint at the start of some bytes. It is a number of 64 bits: what
the tenth byte has beyond them is dropped. -/
def readVarint (b : List UInt8) : Option (ℕ × List UInt8) :=
  (readGroups 10 b).map fun x => (x.1 % 2 ^ 64, x.2)

theorem toNat_toUInt8 {n : ℕ} (h : n < 256) : n.toUInt8.toNat = n :=
  Nat.mod_eq_of_lt h

/-- **Groups are read as the number they were written from.** By induction on
the number of groups: the first one has the lowest seven bits, and the others
are the groups of the rest. -/
theorem readGroups_groups (k : ℕ) {n : ℕ} (h : n < 128 ^ (k + 1)) (rest : List UInt8) :
    readGroups (k + 1) (groups k n ++ rest) = some (n, rest) := by
  have hsmall : ∀ (j : ℕ) {m : ℕ}, m < 128 →
      readGroups (j + 1) (m.toUInt8 :: rest) = some (m, rest) := by
    intro j m hm
    unfold readGroups
    rw [toNat_toUInt8 (by omega), if_pos hm]
  induction k generalizing n with
  | zero => exact hsmall 0 (by simpa using h)
  | succ k ih =>
    unfold groups
    by_cases hn : n < 128
    · rw [if_pos hn]
      exact hsmall (k + 1) hn
    · have hdiv : n / 128 < 128 ^ (k + 1) := by
        refine Nat.div_lt_of_lt_mul ?_
        rw [← Nat.pow_succ']
        exact h
      rw [if_neg hn, List.cons_append]
      unfold readGroups
      rw [toNat_toUInt8 (by omega), if_neg (by omega), ih hdiv]
      show some (n % 128 + 128 - 128 + 128 * (n / 128), rest) = _
      rw [Nat.add_sub_cancel, Nat.mod_add_div]

/-- **A varint is read as the number it was written from**, whatever comes
after it. -/
theorem readVarint_varint {n : ℕ} (h : n < 2 ^ 64) (rest : List UInt8) :
    readVarint (varint n ++ rest) = some (n, rest) := by
  unfold readVarint varint
  rw [readGroups_groups 9 (lt_trans h (by decide))]
  show some (n % 2 ^ 64, rest) = _
  rw [Nat.mod_eq_of_lt h]

theorem varint_ne_nil (n : ℕ) : varint n ≠ [] := by
  unfold varint groups
  split
  · exact List.cons_ne_nil _ _
  · exact List.cons_ne_nil _ _

/-- All varints in some bytes, and whether the bytes end with one. No varint
is empty, so there are no more of them than there are bytes. -/
def readVarintsAux : ℕ → List UInt8 → List ℕ × Bool
  | _, [] => ([], true)
  | 0, _ :: _ => ([], false)
  | fuel + 1, c :: b =>
    match readVarint (c :: b) with
    | none => ([], false)
    | some (n, rest) => (n :: (readVarintsAux fuel rest).1, (readVarintsAux fuel rest).2)

/-- All varints in some bytes, as a packed field has them. What comes before
one that cannot be read counts. -/
def readVarints (b : List UInt8) : List ℕ × Bool := readVarintsAux b.length b

/-- **Varints one after the other are read as they were written.** -/
theorem readVarints_flatMap {ns : List ℕ} (h : ∀ n ∈ ns, n < 2 ^ 64) :
    readVarints (ns.flatMap varint) = (ns, true) := by
  have haux : ∀ fuel, (ns.flatMap varint).length ≤ fuel →
      readVarintsAux fuel (ns.flatMap varint) = (ns, true) := by
    induction ns with
    | nil =>
      intro fuel _
      unfold readVarintsAux
      rfl
    | cons n ns ih =>
      intro fuel hfuel
      obtain ⟨c, b, hb⟩ := List.exists_cons_of_ne_nil (varint_ne_nil n)
      have hread := readVarint_varint (h n List.mem_cons_self) (ns.flatMap varint)
      rw [List.flatMap_cons, hb, List.cons_append] at hfuel ⊢
      rw [hb, List.cons_append] at hread
      obtain ⟨fuel, rfl⟩ : ∃ k, fuel = k + 1 := ⟨fuel - 1, by rw [List.length_cons] at hfuel; omega⟩
      have hrest := ih (fun m hm => h m (List.mem_cons_of_mem n hm)) fuel (by
        rw [List.length_cons, List.length_append] at hfuel
        omega)
      unfold readVarintsAux
      rw [hread]
      show (n :: (readVarintsAux fuel _).1, (readVarintsAux fuel _).2) = _
      rw [hrest]
  exact haux _ (le_refl _)

/-! ## Signed integers -/

/-- An integer as the 64 bits of its two's complement. Negative ones take ten
bytes, those of 32 bits included. -/
def ofInt (n : ℤ) : ℕ := (n % 2 ^ 64).toNat

/-- The integer that has these 64 bits as its two's complement. -/
def toInt (n : ℕ) : ℤ := if n < 2 ^ 63 then n else n - 2 ^ 64

theorem ofInt_lt (n : ℤ) : ofInt n < 2 ^ 64 := by
  unfold ofInt
  omega

/-- The integer is a 64-bit signed one. -/
def FitsInt64 (n : ℤ) : Prop := -2 ^ 63 ≤ n ∧ n < 2 ^ 63

/-- **An integer of 64 bits is read as it was written.** -/
theorem toInt_ofInt {n : ℤ} (h : FitsInt64 n) : toInt (ofInt n) = n := by
  obtain ⟨hmin, hmax⟩ := h
  unfold toInt ofInt
  omega

/-! ## Fields -/

/-- A payload, by its wire type. A nested message and a string are both bytes
with their length. -/
inductive Payload
  | varint (n : ℕ)
  | fixed64 (b : List UInt8)
  | bytes (b : List UInt8)
  | fixed32 (b : List UInt8)
  deriving DecidableEq

namespace Payload

/-- The number of the wire type, which is the low three bits of a tag. The
missing ones are those of groups. -/
def wireType : Payload → ℕ
  | varint _ => 0
  | fixed64 _ => 1
  | bytes _ => 2
  | fixed32 _ => 5

/-- The payload as it is written. Only bytes are preceded by their length;
that of the others is fixed, or shows in them. -/
def encode : Payload → List UInt8
  | varint n => Wire.varint n
  | fixed64 b => b
  | bytes b => Wire.varint b.length ++ b
  | fixed32 b => b

/-- The payload can be written: its number has 64 bits, and its bytes have a
length that can be written. -/
def Fits : Payload → Prop
  | varint n => n < 2 ^ 64
  | fixed64 b => b.length = 8
  | bytes b => b.length < 2 ^ 31
  | fixed32 b => b.length = 4

/-- What a field of type `int64` holds, if it is one. Another wire type makes
of it a field that is not known. -/
def int64? : Payload → Option ℤ
  | varint n => some (toInt n)
  | _ => none

/-- What a field of bytes holds, if it is one. -/
def bytes? : Payload → Option (List UInt8)
  | bytes b => some b
  | _ => none

/-- The elements that a field adds to a repeated `int64`: one, or some that
are packed. A reader takes both, whichever the type says. -/
def int64s : Payload → List ℤ × Bool
  | varint n => ([toInt n], true)
  | bytes b => ((readVarints b).1.map toInt, (readVarints b).2)
  | _ => ([], true)

end Payload

/-- A field: its number and its payload. The message type says what it is
called. -/
structure Field where
  number : ℕ
  payload : Payload
  deriving DecidableEq

/-- A field of an integer, as a varint. -/
def intField (number : ℕ) (n : ℤ) : Field := ⟨number, .varint (ofInt n)⟩

/-- A field of a string, or of a nested message, in its serialized form. -/
def bytesField (number : ℕ) (b : List UInt8) : Field := ⟨number, .bytes b⟩

theorem int64?_ofInt {n : ℤ} (h : FitsInt64 n) : (Payload.varint (ofInt n)).int64? = some n :=
  congrArg some (toInt_ofInt h)

theorem int64s_ofInt {n : ℤ} (h : FitsInt64 n) :
    (Payload.varint (ofInt n)).int64s = ([n], true) := by
  show ([toInt (ofInt n)], true) = _
  rw [toInt_ofInt h]

/-- So many bytes, and those after them, if there are as many. -/
def readChunk (n : ℕ) (b : List UInt8) : Option (List UInt8 × List UInt8) :=
  if n ≤ b.length then some (b.take n, b.drop n) else none

theorem readChunk_append (b rest : List UInt8) :
    readChunk b.length (b ++ rest) = some (b, rest) := by
  unfold readChunk
  rw [if_pos (by simp), List.take_left, List.drop_left]

/-- The payload at the start of some bytes, by its wire type. A length of
`2 ^ 31` or more is none, since it is kept in an `int`. -/
def readPayload (wireType : ℕ) (b : List UInt8) : Option (Payload × List UInt8) :=
  match wireType with
  | 0 => (readVarint b).map fun x => (.varint x.1, x.2)
  | 1 => (readChunk 8 b).map fun x => (.fixed64 x.1, x.2)
  | 2 => (readVarint b).bind fun x =>
      if x.1 < 2 ^ 31 then (readChunk x.1 x.2).map fun y => (.bytes y.1, y.2) else none
  | 5 => (readChunk 4 b).map fun x => (.fixed32 x.1, x.2)
  | _ => none

namespace Field

/-- The field as it is written: its tag and its payload. -/
def encode (f : Field) : List UInt8 :=
  varint (8 * f.number + f.payload.wireType) ++ f.payload.encode

/-- The field can be written: its number has 29 bits and is not zero. -/
def Fits (f : Field) : Prop := 0 < f.number ∧ f.number < 2 ^ 29 ∧ f.payload.Fits

end Field

/-- The field at the start of some bytes. Its tag has 32 bits, and the number
zero is none. -/
def readField (b : List UInt8) : Option (Field × List UInt8) :=
  (readVarint b).bind fun tag =>
    if tag.1 / 8 = 0 ∨ 2 ^ 32 ≤ tag.1 then none
    else (readPayload (tag.1 % 8) tag.2).map fun x => (⟨tag.1 / 8, x.1⟩, x.2)

theorem Payload.wireType_lt (p : Payload) : p.wireType < 8 := by
  cases p <;> simp [wireType]

/-- A payload is read as it was written, by the wire type that its tag has. -/
theorem readPayload_encode {p : Payload} (h : p.Fits) (rest : List UInt8) :
    readPayload p.wireType (p.encode ++ rest) = some (p, rest) := by
  cases p with
  | varint n =>
    show (readVarint (varint n ++ rest)).map _ = _
    rw [readVarint_varint h]
    rfl
  | fixed64 b =>
    show (readChunk 8 (b ++ rest)).map _ = _
    rw [← show b.length = 8 from h, readChunk_append]
    rfl
  | bytes b =>
    have hlen : b.length < 2 ^ 31 := h
    show (readVarint (varint b.length ++ b ++ rest)).bind _ = _
    rw [List.append_assoc, readVarint_varint (by omega)]
    show (if b.length < 2 ^ 31 then (readChunk b.length (b ++ rest)).map _ else none) = _
    rw [if_pos hlen, readChunk_append]
    rfl
  | fixed32 b =>
    show (readChunk 4 (b ++ rest)).map _ = _
    rw [← show b.length = 4 from h, readChunk_append]
    rfl

/-- **A field is read as it was written**, whatever comes after it. -/
theorem readField_encode {f : Field} (h : f.Fits) (rest : List UInt8) :
    readField (f.encode ++ rest) = some (f, rest) := by
  obtain ⟨hpos, hnumber, hpayload⟩ := h
  have htype := f.payload.wireType_lt
  have hdiv : (8 * f.number + f.payload.wireType) / 8 = f.number := by omega
  have hmod : (8 * f.number + f.payload.wireType) % 8 = f.payload.wireType := by omega
  unfold readField Field.encode
  rw [List.append_assoc, readVarint_varint (by omega)]
  show (if (8 * f.number + f.payload.wireType) / 8 = 0
    ∨ 2 ^ 32 ≤ 8 * f.number + f.payload.wireType then none else _) = _
  rw [if_neg (by omega)]
  show (readPayload ((8 * f.number + f.payload.wireType) % 8) _).map _ = _
  rw [hmod, readPayload_encode hpayload]
  show some ((⟨(8 * f.number + f.payload.wireType) / 8, f.payload⟩ : Field), rest) = _
  rw [hdiv]

theorem Field.encode_ne_nil (f : Field) : f.encode ≠ [] := by
  unfold encode
  exact List.append_ne_nil_of_left_ne_nil (varint_ne_nil _) _

/-! ## Messages -/

variable {α : Type*}

/-- Fields one after the other, until the content of one cannot be read. What
was read before is kept, and so is what was read of that one. -/
def readAll (field : α → Field → α × Bool) : α → List Field → α × Bool
  | a, [] => (a, true)
  | a, f :: fs => if (field a f).2 then readAll field (field a f).1 fs else field a f

/-- The message that some bytes are read into, and whether they could be read
to their end. Each field takes at least a byte, so the number of bytes is
enough for the bound on the turns. -/
def parseAux (field : α → Field → α × Bool) : ℕ → α → List UInt8 → α × Bool
  | _, a, [] => (a, true)
  | 0, a, _ :: _ => (a, false)
  | fuel + 1, a, c :: b =>
    match readField (c :: b) with
    | none => (a, false)
    | some (f, rest) =>
      if (field a f).2 then parseAux field fuel (field a f).1 rest else field a f

/-- **The message that some bytes are read into**, from the message `a`, and
whether they could be read to their end. `field` says what a field does to a
message of the type, and whether its content could be read. -/
def parse (field : α → Field → α × Bool) (a : α) (b : List UInt8) : α × Bool :=
  parseAux field b.length a b

/-- Fields one after the other: nothing is between them, nor at the end. -/
def encode (fs : List Field) : List UInt8 := fs.flatMap Field.encode

/-- **A message that was written is read field by field.** What is left to
say about a message type is what its fields do to a message, which has
nothing to do with bytes. -/
theorem parse_encode (field : α → Field → α × Bool) {fs : List Field} (h : ∀ f ∈ fs, f.Fits)
    (a : α) : parse field a (encode fs) = readAll field a fs := by
  have haux : ∀ fuel (a : α), (encode fs).length ≤ fuel →
      parseAux field fuel a (encode fs) = readAll field a fs := by
    induction fs with
    | nil =>
      intro fuel a _
      unfold encode parseAux
      rfl
    | cons f fs ih =>
      intro fuel a hfuel
      obtain ⟨c, b, hb⟩ := List.exists_cons_of_ne_nil f.encode_ne_nil
      have hread := readField_encode (h f List.mem_cons_self) (encode fs)
      have hcons : encode (f :: fs) = c :: (b ++ encode fs) := by
        unfold encode
        rw [List.flatMap_cons, hb, List.cons_append]
      rw [hcons] at hfuel ⊢
      rw [hb, List.cons_append] at hread
      obtain ⟨fuel, rfl⟩ : ∃ k, fuel = k + 1 := ⟨fuel - 1, by rw [List.length_cons] at hfuel; omega⟩
      have hrest := ih (fun g hg => h g (List.mem_cons_of_mem f hg)) fuel (field a f).1 (by
        rw [List.length_cons, List.length_append] at hfuel
        omega)
      unfold parseAux readAll
      rw [hread]
      dsimp only
      rw [hrest]
  exact haux _ a (le_refl _)

/-- Fields are read after those before them. -/
theorem readAll_append {field : α → Field → α × Bool} {a a' : α} {fs : List Field}
    (h : readAll field a fs = (a', true)) (gs : List Field) :
    readAll field a (fs ++ gs) = readAll field a' gs := by
  induction fs generalizing a with
  | nil =>
    obtain rfl : a = a' := congrArg Prod.fst h
    rfl
  | cons f fs ih =>
    unfold readAll at h
    rw [List.cons_append]
    show (if (field a f).2 then readAll field (field a f).1 (fs ++ gs) else field a f) = _
    split at h
    · rename_i hok
      rw [if_pos hok]
      exact ih h
    · rename_i hok
      rw [h] at hok
      exact absurd rfl hok

/-- **A repeated field is read element by element.** `set` makes the message
with these elements of it, and each field that is read appends one. -/
theorem readAll_repeated {β : Type*} (field : α → Field → α × Bool) (set : List β → α)
    {mk : β → Field} {l : List β}
    (h : ∀ xs, ∀ x ∈ l, field (set xs) (mk x) = (set (xs ++ [x]), true)) (xs : List β) :
    readAll field (set xs) (l.map mk) = (set (xs ++ l), true) := by
  induction l generalizing xs with
  | nil =>
    rw [List.append_nil]
    rfl
  | cons x l ih =>
    have hx := h xs x List.mem_cons_self
    unfold List.map readAll
    rw [hx, if_pos rfl, ih (fun ys y hy => h ys y (List.mem_cons_of_mem x hy)), List.append_assoc]
    rfl

/-- **An optional field is read if it is there.** -/
theorem readAll_optional {β : Type*} (field : α → Field → α × Bool) (set : Option β → α)
    {mk : β → Field} {o : Option β} (h : ∀ x ∈ o, field (set none) (mk x) = (set (some x), true)) :
    readAll field (set none) (o.toList.map mk) = (set o, true) := by
  cases o with
  | none => rfl
  | some x =>
    show (if (field (set none) (mk x)).2 then readAll field (field (set none) (mk x)).1 []
      else field (set none) (mk x)) = _
    rw [h x rfl]
    rfl

/-- A repeated `int64`. -/
theorem readAll_int64s (field : α → Field → α × Bool) (set : List ℤ → α) {k : ℕ} {l : List ℤ}
    (hl : ∀ n ∈ l, FitsInt64 n)
    (h : ∀ xs p, field (set xs) ⟨k, p⟩ = (set (xs ++ p.int64s.1), p.int64s.2)) :
    readAll field (set []) (l.map (intField k)) = (set l, true) := by
  refine readAll_repeated field set (fun xs n hn => ?_) []
  show field (set xs) ⟨k, .varint (ofInt n)⟩ = _
  rw [h, int64s_ofInt (hl n hn)]

/-- An optional `int64`. -/
theorem readAll_int64 (field : α → Field → α × Bool) (set : Option ℤ → α) {k : ℕ} {o : Option ℤ}
    (ho : ∀ n ∈ o, FitsInt64 n)
    (h : ∀ p, field (set none) ⟨k, p⟩ = (set (p.int64? <|> none), true)) :
    readAll field (set none) (o.toList.map (intField k)) = (set o, true) := by
  refine readAll_optional field set fun n hn => ?_
  show field (set none) ⟨k, .varint (ofInt n)⟩ = _
  rw [h, int64?_ofInt (ho n hn)]
  rfl

/-- An optional string. -/
theorem readAll_bytes (field : α → Field → α × Bool) (set : Option (List UInt8) → α) {k : ℕ}
    {o : Option (List UInt8)}
    (h : ∀ p, field (set none) ⟨k, p⟩ = (set (p.bytes? <|> none), true)) :
    readAll field (set none) (o.toList.map (bytesField k)) = (set o, true) := by
  refine readAll_optional field set fun b _ => ?_
  show field (set none) ⟨k, .bytes b⟩ = _
  rw [h]
  rfl

/-- The bytes of a field are among those of its message. -/
theorem length_le_encode {fs : List Field} {k : ℕ} {b : List UInt8}
    (h : (⟨k, .bytes b⟩ : Field) ∈ fs) : b.length ≤ (encode fs).length := by
  have hfield : b.length ≤ (Field.encode ⟨k, .bytes b⟩).length := by
    show b.length ≤ (varint _ ++ (varint b.length ++ b)).length
    rw [List.length_append, List.length_append]
    omega
  refine le_trans hfield (List.Sublist.length_le ?_)
  unfold encode
  rw [List.flatMap_def]
  exact List.sublist_flatten_of_mem (List.mem_map_of_mem h)

/-- A field of an integer, of a string or of a nested message, with a number
that can be written. -/
inductive Field.Plain : Field → Prop
  | int {k : ℕ} (hk : 0 < k ∧ k < 2 ^ 29) (n : ℤ) : Field.Plain (intField k n)
  | bytes {k : ℕ} (hk : 0 < k ∧ k < 2 ^ 29) (b : List UInt8) : Field.Plain (bytesField k b)

/-- Plain fields can be written if their message can. -/
theorem Field.Plain.fits {f : Field} (h : f.Plain) {fs : List Field} (hf : f ∈ fs)
    (hsize : (Wire.encode fs).length < 2 ^ 31) : f.Fits := by
  cases h with
  | int hk n => exact ⟨hk.1, hk.2, ofInt_lt n⟩
  | bytes hk b => exact ⟨hk.1, hk.2, lt_of_le_of_lt (length_le_encode hf) hsize⟩

theorem plain_ints {β : Type*} {k : ℕ} (hk : 0 < k ∧ k < 2 ^ 29) (g : β → ℤ) (l : List β) :
    ∀ f ∈ l.map (fun x => intField k (g x)), f.Plain := by
  intro f hf
  obtain ⟨x, -, rfl⟩ := List.mem_map.mp hf
  exact .int hk (g x)

theorem plain_bytes {β : Type*} {k : ℕ} (hk : 0 < k ∧ k < 2 ^ 29) (g : β → List UInt8)
    (l : List β) : ∀ f ∈ l.map (fun x => bytesField k (g x)), f.Plain := by
  intro f hf
  obtain ⟨x, -, rfl⟩ := List.mem_map.mp hf
  exact .bytes hk (g x)

/-- **A message of plain fields is read field by field**, if it is short
enough to be read at all. Its fields can be written then, because none is
longer than it. -/
theorem parse_plain (field : α → Field → α × Bool) (a : α) {fs : List Field}
    (h : ∀ f ∈ fs, f.Plain) (hsize : (encode fs).length < 2 ^ 31) :
    parse field a (encode fs) = readAll field a fs :=
  parse_encode field (fun f hf => (h f hf).fits hf hsize) a

end Wire
