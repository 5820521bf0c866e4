import Mathlib.Algebra.Order.Ring.Nat
import Mathlib.Tactic.Ring
import Mathlib.Data.Nat.Init

/-!
# Type-length-value elements

The variable-length numbers, elements and element sequences of a TLV format: a
number below 253 is one octet, larger ones are a marker octet and two, four or
eight big-endian octets; an element is its type, the length of its value and the
value; a non-negative integer value is one, two, four or eight big-endian octets.

Writers are total.  Readers return `none` where the format has no reading, and
`decodeAll_encodeAll` and `decode_encode` say that what is written is read back.
-/

set_option autoImplicit false

namespace Tlv

/-! ## Big-endian numbers -/

/-- The low `w` octets of `n`, most significant first. -/
def beBytes : ℕ → ℕ → List UInt8
  | 0, _ => []
  | w + 1, n => UInt8.ofNat (n / 256 ^ w) :: beBytes w n

/-- The number a list of octets denotes, most significant first. -/
def beValue : List UInt8 → ℕ
  | [] => 0
  | b :: bs => b.toNat * 256 ^ bs.length + beValue bs

@[simp] theorem length_beBytes (w n : ℕ) : (beBytes w n).length = w := by
  induction w with
  | zero => rfl
  | succ w ih => simp [beBytes, ih]

/-- Reading back `w` octets gives the number modulo `256 ^ w`. -/
theorem beValue_beBytes (w n : ℕ) : beValue (beBytes w n) = n % 256 ^ w := by
  induction w with
  | zero => simp [beBytes, beValue, Nat.mod_one]
  | succ w ih =>
    have hb : (UInt8.ofNat (n / 256 ^ w)).toNat = n / 256 ^ w % 256 := by simp
    rw [beBytes, beValue, ih, length_beBytes, hb, pow_succ, Nat.mod_mul]
    ring

theorem beValue_beBytes_of_lt {w n : ℕ} (h : n < 256 ^ w) : beValue (beBytes w n) = n := by
  rw [beValue_beBytes, Nat.mod_eq_of_lt h]

/-! ## Variable-length numbers -/

/-- The shortest encoding of a number below `2 ^ 64`. -/
def encodeVarNumber (n : ℕ) : List UInt8 :=
  if n < 253 then [UInt8.ofNat n]
  else if n < 2 ^ 16 then 253 :: beBytes 2 n
  else if n < 2 ^ 32 then 254 :: beBytes 4 n
  else 255 :: beBytes 8 n

/-- Read `w` octets off the front as a big-endian number. -/
def readBe (w : ℕ) (bytes : List UInt8) : Option (ℕ × List UInt8) :=
  if bytes.length < w then none else some (beValue (bytes.take w), bytes.drop w)

/-- Read a variable-length number off the front. -/
def readVarNumber : List UInt8 → Option (ℕ × List UInt8)
  | [] => none
  | b :: rest =>
    if b.toNat < 253 then some (b.toNat, rest)
    else if b.toNat = 253 then readBe 2 rest
    else if b.toNat = 254 then readBe 4 rest
    else readBe 8 rest

theorem readBe_beBytes {w n : ℕ} (h : n < 256 ^ w) (rest : List UInt8) :
    readBe w (beBytes w n ++ rest) = some (n, rest) := by
  have hlen : ¬ (beBytes w n ++ rest).length < w := by simp
  rw [readBe, if_neg hlen]
  rw [List.take_left' (length_beBytes w n), List.drop_left' (length_beBytes w n),
    beValue_beBytes_of_lt h]

/-- A written number is read back, with whatever follows it. -/
theorem readVarNumber_encodeVarNumber {n : ℕ} (h : n < 2 ^ 64) (rest : List UInt8) :
    readVarNumber (encodeVarNumber n ++ rest) = some (n, rest) := by
  unfold encodeVarNumber
  split
  · next h1 =>
    have hb : (UInt8.ofNat n).toNat = n := by simp; omega
    simp [readVarNumber, hb, h1]
  · split
    · next h2 =>
      simp only [List.cons_append, readVarNumber]
      exact readBe_beBytes (w := 2) (by omega) rest
    · split
      · next h3 =>
        simp only [List.cons_append, readVarNumber]
        exact readBe_beBytes (w := 4) (by omega) rest
      · simp only [List.cons_append, readVarNumber]
        exact readBe_beBytes (w := 8) (by omega) rest

theorem encodeVarNumber_ne_nil (n : ℕ) : encodeVarNumber n ≠ [] := by
  unfold encodeVarNumber
  split_ifs <;> simp

/-! ## Elements -/

/-- One element: its type and the octets of its value. -/
structure Element where
  type : ℕ
  value : List UInt8
deriving DecidableEq, Repr, Inhabited

namespace Element

/-- What the format can carry: a non-zero 32-bit type and a 64-bit length. -/
def Valid (e : Element) : Prop :=
  0 < e.type ∧ e.type < 2 ^ 32 ∧ e.value.length < 2 ^ 64

instance (e : Element) : Decidable e.Valid := inferInstanceAs (Decidable (_ ∧ _ ∧ _))

/-- The wire form: type, length of the value, value. -/
def encode (e : Element) : List UInt8 :=
  encodeVarNumber e.type ++ encodeVarNumber e.value.length ++ e.value

end Element

/-- Read one element off the front. -/
def readElement (bytes : List UInt8) : Option (Element × List UInt8) := do
  let (type, afterType) ← readVarNumber bytes
  if type = 0 ∨ 2 ^ 32 ≤ type then none else
  let (length, afterLength) ← readVarNumber afterType
  if afterLength.length < length then none else
  some (⟨type, afterLength.take length⟩, afterLength.drop length)

/-- Read the whole input as exactly one element. -/
def decode (bytes : List UInt8) : Option Element :=
  match readElement bytes with
  | some (e, []) => some e
  | _ => none

/-- Read the whole input as a sequence of elements, at most `fuel` of them. -/
def decodeUpTo : ℕ → List UInt8 → Option (List Element)
  | _, [] => some []
  | 0, _ :: _ => none
  | fuel + 1, bytes => do
    let (e, rest) ← readElement bytes
    let es ← decodeUpTo fuel rest
    some (e :: es)

/-- Read the whole input as a sequence of elements.  An element takes at least
one octet, so the length of the input is fuel enough. -/
def decodeAll (bytes : List UInt8) : Option (List Element) :=
  decodeUpTo bytes.length bytes

/-- The wire form of a sequence of elements. -/
def encodeAll (es : List Element) : List UInt8 :=
  es.flatMap Element.encode

@[simp] theorem encodeAll_nil : encodeAll [] = [] := rfl

@[simp] theorem encodeAll_cons (e : Element) (es : List Element) :
    encodeAll (e :: es) = e.encode ++ encodeAll es := rfl

/-- The reader takes one valid element and leaves what follows. -/
theorem readElement_encode {e : Element} (h : e.Valid) (rest : List UInt8) :
    readElement (e.encode ++ rest) = some (e, rest) := by
  obtain ⟨hpos, htype, hlen⟩ := h
  have htype' : e.type < 2 ^ 64 := lt_trans htype (by omega)
  have hok : ¬ (e.type = 0 ∨ 2 ^ 32 ≤ e.type) := by omega
  simp only [readElement, Element.encode, List.append_assoc,
    readVarNumber_encodeVarNumber htype', readVarNumber_encodeVarNumber hlen,
    Option.bind_eq_bind, Option.bind_some, if_neg hok]
  simp

theorem encode_ne_nil (e : Element) : e.encode ≠ [] := by
  simp [Element.encode, encodeVarNumber_ne_nil]

/-- An element that the format can carry is read back from its wire form. -/
theorem decode_encode {e : Element} (h : e.Valid) : decode e.encode = some e := by
  have := readElement_encode h []
  rw [List.append_nil] at this
  simp [decode, this]

/-- With fuel for every element, a written sequence is read back. -/
theorem decodeUpTo_encodeAll {es : List Element} (h : ∀ e ∈ es, e.Valid) :
    ∀ fuel, es.length ≤ fuel → decodeUpTo fuel (encodeAll es) = some es := by
  induction es with
  | nil => intro fuel _; cases fuel <;> rfl
  | cons e es ih =>
    intro fuel hfuel
    cases fuel with
    | zero => simp at hfuel
    | succ fuel =>
      have he : e.Valid := h e (by simp)
      have hes := ih (fun e' he' => h e' (by simp [he'])) fuel (by simpa using hfuel)
      have hne : e.encode ++ encodeAll es ≠ [] := by simp [encode_ne_nil]
      rw [encodeAll_cons]
      rw [decodeUpTo.eq_3 _ _ hne, readElement_encode he]
      simp [hes]

theorem length_le_length_encodeAll (es : List Element) : es.length ≤ (encodeAll es).length := by
  induction es with
  | nil => simp
  | cons e es ih =>
    have : 0 < e.encode.length := List.length_pos_iff.mpr (encode_ne_nil e)
    simp only [encodeAll_cons, List.length_cons, List.length_append]
    omega

theorem length_value_le_encode (e : Element) : e.value.length ≤ e.encode.length := by
  simp only [Element.encode, List.length_append]
  omega

/-- An encoding of many is at least as long as the encoding of each. -/
theorem length_encode_le_encodeAll {e : Element} {es : List Element} (h : e ∈ es) :
    e.encode.length ≤ (encodeAll es).length := by
  induction es with
  | nil => cases h
  | cons e' es ih =>
    rw [encodeAll_cons, List.length_append]
    rcases List.mem_cons.mp h with rfl | hmem
    · omega
    · have := ih hmem
      omega

/-- Elements of possible types whose wire forms fit together into a value can be carried. -/
theorem valid_of_encodeAll {es : List Element} (htype : ∀ e ∈ es, 0 < e.type ∧ e.type < 2 ^ 32)
    (hlen : (encodeAll es).length < 2 ^ 64) : ∀ e ∈ es, e.Valid := by
  intro e he
  have h1 := length_value_le_encode e
  have h2 := length_encode_le_encodeAll he
  exact ⟨(htype e he).1, (htype e he).2, by omega⟩

/-- **Round trip of sequences.**  Elements that the format can carry are read back
from their concatenated wire forms, in order. -/
theorem decodeAll_encodeAll {es : List Element} (h : ∀ e ∈ es, e.Valid) :
    decodeAll (encodeAll es) = some es :=
  decodeUpTo_encodeAll h _ (length_le_length_encodeAll es)

/-! ## Non-negative integer values -/

/-- The shortest of the four fixed widths that holds `n`. -/
def encodeNonNegative (n : ℕ) : List UInt8 :=
  if n < 2 ^ 8 then beBytes 1 n
  else if n < 2 ^ 16 then beBytes 2 n
  else if n < 2 ^ 32 then beBytes 4 n
  else beBytes 8 n

/-- A value of one, two, four or eight octets is a non-negative integer. -/
def isNonNegative (value : List UInt8) : Bool :=
  value.length = 1 || value.length = 2 || value.length = 4 || value.length = 8

def readNonNegative (value : List UInt8) : Option ℕ :=
  if isNonNegative value then some (beValue value) else none

/-- The encoding of a nonNegativeInteger has one of the widths that are read as one. -/
theorem isNonNegative_encode (n : ℕ) : isNonNegative (encodeNonNegative n) = true := by
  unfold encodeNonNegative
  split_ifs <;> simp [isNonNegative]

theorem length_encodeNonNegative_le (n : ℕ) : (encodeNonNegative n).length ≤ 8 := by
  unfold encodeNonNegative
  split_ifs <;> simp

/-- A written integer below `2 ^ 64` is read back. -/
theorem readNonNegative_encode {n : ℕ} (h : n < 2 ^ 64) :
    readNonNegative (encodeNonNegative n) = some n := by
  rw [readNonNegative, if_pos (isNonNegative_encode n)]
  unfold encodeNonNegative
  split_ifs with h1 h2 h3
  all_goals exact congrArg some (beValue_beBytes_of_lt (by omega))

theorem encodeNonNegative_injective {m n : ℕ} (hm : m < 2 ^ 64) (hn : n < 2 ^ 64)
    (h : encodeNonNegative m = encodeNonNegative n) : m = n := by
  have h1 := readNonNegative_encode hm
  rw [h, readNonNegative_encode hn] at h1
  exact (Option.some.inj h1).symm

end Tlv
