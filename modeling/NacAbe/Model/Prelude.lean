import Mathlib.Algebra.Order.Ring.Nat
import Mathlib.Data.List.TakeWhile

/-!
# Octet strings, C strings and exceptions

`std::string` and `ndn::Buffer` are both octet strings.  Two conversions between
them are not the identity and are modelled as the source computes them: a buffer
made from `c_str()` with a length that went through `uint32_t`, and a string made
from a buffer by scanning for its terminator.  The scan of a buffer that holds no
terminator runs on into the memory behind it, about which nothing is known.
-/

set_option autoImplicit false

namespace NacAbe

/-- `std::string`, `ndn::Buffer`, `span<const uint8_t>`. -/
abbrev Bytes := List UInt8

/-- A string literal of the source. -/
def ascii (s : String) : Bytes := s.toList.map fun c => UInt8.ofNat c.toNat

/-- Octets put into a text. -/
def text (b : Bytes) : String := String.ofList (b.map fun c => Char.ofNat c.toNat)

/-- `(uint32_t) n`. -/
def toUint32 (n : ℕ) : ℕ := n % 2 ^ 32

theorem toUint32_of_lt {n : ℕ} (h : n < 2 ^ 32) : toUint32 n = n := Nat.mod_eq_of_lt h

/-- The octets that lie in memory behind a buffer.  One function stands for all reads of a
run: buffers with the same octets have the same octets behind them. -/
structure Memory where
  after : Bytes → Bytes

/-- The octets from the start of a buffer up to the next terminator, in the buffer or behind
it. -/
def cString (mem : Memory) (buffer : Bytes) : Bytes :=
  (buffer ++ mem.after buffer).takeWhile (· ≠ 0)

/-- `Buffer((uint8_t*) s.c_str(), (uint32_t) s.size() + 1)`: the sum is a `uint32_t`
too, and `c_str()` ends with the terminator. -/
def cStrBuffer (s : Bytes) : Bytes :=
  (s ++ [0]).take (toUint32 (toUint32 s.length + 1))

theorem length_cStrBuffer_lt (s : Bytes) : (cStrBuffer s).length < 2 ^ 32 := by
  have hshort : toUint32 (toUint32 s.length + 1) < 2 ^ 32 := Nat.mod_lt _ (by decide)
  rw [cStrBuffer, List.length_take]
  omega

/-- Where neither length wraps, the buffer is the string and its terminator. -/
theorem cStrBuffer_of_lt {s : Bytes} (h : s.length + 1 < 2 ^ 32) : cStrBuffer s = s ++ [0] := by
  have h1 : toUint32 s.length = s.length := toUint32_of_lt (by omega)
  rw [cStrBuffer, h1, toUint32_of_lt h]
  exact List.take_of_length_le (by simp)

/-- A string is whole in its buffer exactly when its length with the terminator fits. -/
theorem cStrBuffer_eq_iff (s : Bytes) : cStrBuffer s = s ++ [0] ↔ s.length + 1 < 2 ^ 32 := by
  constructor
  · intro h
    have hshort := length_cStrBuffer_lt s
    rw [h, List.length_append, List.length_singleton] at hshort
    exact hshort
  · exact cStrBuffer_of_lt

/-- A buffer that holds a terminator was not cut. -/
theorem length_lt_of_mem_cStrBuffer {s : Bytes} (hs : (0 : UInt8) ∉ s)
    (h : (0 : UInt8) ∈ cStrBuffer s) : s.length + 1 < 2 ^ 32 := by
  by_contra hlong
  have hcut : toUint32 (toUint32 s.length + 1) ≤ s.length := by
    have : toUint32 (toUint32 s.length + 1) < 2 ^ 32 := Nat.mod_lt _ (by decide)
    omega
  rw [cStrBuffer, List.take_append_of_le_length hcut] at h
  exact hs (List.mem_of_mem_take h)

/-- A string without terminators of its own survives being terminated and scanned,
whatever follows. -/
theorem cString_terminated (mem : Memory) {s : Bytes} (h : (0 : UInt8) ∉ s) :
    cString mem (s ++ [0]) = s := by
  have hs : ∀ b ∈ s, decide (b ≠ 0) = true := by
    intro b hb
    simp only [ne_eq, decide_eq_true_eq]
    rintro rfl
    exact h hb
  rw [cString, List.append_assoc, List.takeWhile_append_of_pos hs]
  simp

theorem cString_cStrBuffer (mem : Memory) {s : Bytes} (h : (0 : UInt8) ∉ s)
    (hlen : s.length + 1 < 2 ^ 32) : cString mem (cStrBuffer s) = s := by
  rw [cStrBuffer_of_lt hlen, cString_terminated mem h]

/-- The characters before the terminator are the whole buffer when it has none. -/
theorem length_takeWhile_eq_iff {buffer : Bytes} :
    (buffer.takeWhile (· ≠ 0)).length = buffer.length ↔ (0 : UInt8) ∉ buffer := by
  have hall : (∀ b ∈ buffer, decide (b ≠ 0) = true) ↔ (0 : UInt8) ∉ buffer := by
    simp only [ne_eq, decide_eq_true_eq]
    constructor
    · intro h h0
      exact h 0 h0 rfl
    · rintro h b hb rfl
      exact h hb
  rw [← hall, ← List.takeWhile_eq_self_iff]
  constructor
  · exact (List.takeWhile_prefix _).eq_of_length
  · intro h
    rw [h]

/-- The scan stops at a terminator, -/
theorem cString_of_mem (mem : Memory) {buffer : Bytes} (h : (0 : UInt8) ∈ buffer) :
    cString mem buffer = buffer.takeWhile (· ≠ 0) := by
  have hlen : ¬ (buffer.takeWhile (· ≠ 0)).length = buffer.length := fun heq =>
    length_takeWhile_eq_iff.mp heq h
  rw [cString, List.takeWhile_append, if_neg hlen]

/-- and without one goes on behind the buffer. -/
theorem cString_of_notMem (mem : Memory) {buffer : Bytes} (h : (0 : UInt8) ∉ buffer) :
    cString mem buffer = buffer ++ (mem.after buffer).takeWhile (· ≠ 0) := by
  rw [cString, List.takeWhile_append, if_pos (length_takeWhile_eq_iff.mpr h)]

/-- What an execution may end with instead of a result. -/
inductive Exn
  /-- `ndn::tlv::Error`, thrown by every failed decoding of the library. -/
  | tlvError
  /-- `ndn::Name::Error`, thrown by an index outside a name. -/
  | nameError
  | invalidArgument
  | logicError
  | outOfRange
  | badFunctionCall
  | nacAlgoError (what : String)
  | runtimeError (what : String)
  /-- An exception of another library or of user code, derived from `std::exception`. -/
  | other (what : String)
  /-- A thrown value that is not a `std::exception`. -/
  | foreign
  /-- Not an exception: the execution has no defined continuation. -/
  | undefined
deriving DecidableEq, Repr

/-- Whether `catch (const std::exception&)` catches it. -/
def Exn.isStd : Exn → Bool
  | .foreign => false
  | .undefined => false
  | _ => true

/-- `e.what()`.  The texts of the library's own errors are its own and stand here
by the name of the error. -/
def Exn.what : Exn → String
  | .tlvError => "tlv::Error"
  | .nameError => "Name::Error"
  | .invalidArgument => "invalid_argument"
  | .logicError => "logic_error"
  | .outOfRange => "out_of_range"
  | .badFunctionCall => "bad_function_call"
  | .nacAlgoError what => what
  | .runtimeError what => what
  | .other what => what
  | .foreign => ""
  | .undefined => ""

/-- `std::string(reinterpret_cast<char*>(buffer.data()))`: `data()` of an empty buffer is null,
and no string is made from a null pointer. -/
def stringFrom (mem : Memory) (buffer : Bytes) : Except Exn Bytes :=
  if buffer = [] then .error .logicError else .ok (cString mem buffer)

/-- The pointer of an empty buffer is null, which `std::string` rejects. -/
theorem stringFrom_nil (mem : Memory) : stringFrom mem [] = .error .logicError := rfl

theorem stringFrom_of_ne_nil (mem : Memory) {buffer : Bytes} (h : buffer ≠ []) :
    stringFrom mem buffer = .ok (cString mem buffer) := if_neg h

/-- A string with its terminator is read back. -/
theorem stringFrom_terminated (mem : Memory) {s : Bytes} (h : (0 : UInt8) ∉ s) :
    stringFrom mem (s ++ [0]) = .ok s := by
  rw [stringFrom_of_ne_nil mem (by simp), cString_terminated mem h]

theorem stringFrom_cStrBuffer (mem : Memory) {s : Bytes} (h : (0 : UInt8) ∉ s)
    (hlen : s.length + 1 < 2 ^ 32) : stringFrom mem (cStrBuffer s) = .ok s := by
  rw [cStrBuffer_of_lt hlen, stringFrom_terminated mem h]

theorem ok_bind {α β : Type} (a : α) (f : α → Except Exn β) : Except.ok a >>= f = f a := rfl

/-- A computation that returns has had an intermediate result. -/
theorem bind_eq_ok {α β : Type} {x : Except Exn α} {f : α → Except Exn β} {b : β} :
    x >>= f = .ok b ↔ ∃ a, x = .ok a ∧ f a = .ok b := by
  cases x with
  | error e => exact ⟨nofun, nofun⟩
  | ok a => exact ⟨fun h => ⟨a, rfl, h⟩, fun ⟨_, ha, h⟩ => Except.ok.inj ha ▸ h⟩

end NacAbe
