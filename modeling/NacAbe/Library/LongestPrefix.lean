import Mathlib.Data.List.Infix
import Mathlib.Data.Nat.Find

/-!
# The longest assigned prefix

Values are assigned to lists one after the other, the last assignment to a list
counting.  `Governs` picks, for a given list, the longest of its prefixes that has a
value; there is at most one, and one as soon as any prefix has a value.
-/

set_option autoImplicit false

namespace LongestPrefix

variable {κ β : Type} [DecidableEq κ]

/-- The value last assigned to `p`. -/
def lastValue (pairs : List (List κ × β)) (p : List κ) : Option β :=
  (pairs.reverse.find? fun a => a.1 = p).map Prod.snd

@[simp] theorem lastValue_nil (p : List κ) : lastValue ([] : List (List κ × β)) p = none := rfl

/-- The last pair wins: appending a pair overrides what its prefix had. -/
theorem lastValue_concat (pairs : List (List κ × β)) (q : List κ) (w : β) (p : List κ) :
    lastValue (pairs ++ [(q, w)]) p = if q = p then some w else lastValue pairs p := by
  unfold lastValue
  rw [List.reverse_concat, List.find?_cons]
  by_cases h : q = p
  · simp [h]
  · simp [h]

/-- `p` is the longest prefix of `name` with a value, and `v` is the value. -/
structure Governs (pairs : List (List κ × β)) (name p : List κ) (v : β) : Prop where
  value_eq : lastValue pairs p = some v
  isPrefix : p <+: name
  longest : ∀ q w, lastValue pairs q = some w → q <+: name → q.length ≤ p.length

variable {pairs : List (List κ × β)} {name p p' : List κ} {v v' : β}

/-- At most one prefix governs a name, with one value. -/
theorem Governs.unique (h : Governs pairs name p v) (h' : Governs pairs name p' v') :
    p = p' ∧ v = v' := by
  have hlen : p.length = p'.length :=
    le_antisymm (h'.longest p v h.value_eq h.isPrefix) (h.longest p' v' h'.value_eq h'.isPrefix)
  have hp : p = p' := by
    rw [List.prefix_iff_eq_take.mp h.isPrefix, List.prefix_iff_eq_take.mp h'.isPrefix, hlen]
  subst hp
  have hv := h.value_eq.symm.trans h'.value_eq
  exact ⟨rfl, Option.some.inj hv⟩

/-- Where some prefix has a value, one of them governs. -/
theorem exists_governs {q : List κ} {w : β} (hq : lastValue pairs q = some w)
    (hpre : q <+: name) : ∃ p v, Governs pairs name p v := by
  let P : ℕ → Prop := fun n => (lastValue pairs (name.take n)).isSome
  have hP : P q.length := by
    change (lastValue pairs (name.take q.length)).isSome
    rw [← List.prefix_iff_eq_take.mp hpre, hq]
    rfl
  obtain ⟨v, hv⟩ := Option.isSome_iff_exists.mp (Nat.findGreatest_spec hpre.length_le hP)
  refine ⟨name.take (Nat.findGreatest P name.length), v, hv, List.take_prefix _ _, ?_⟩
  intro q' w' hq' hpre'
  have hP' : P q'.length := by
    change (lastValue pairs (name.take q'.length)).isSome
    rw [← List.prefix_iff_eq_take.mp hpre', hq']
    rfl
  have hle := Nat.le_findGreatest hpre'.length_le hP'
  rw [List.length_take]
  exact le_min hle hpre'.length_le

end LongestPrefix
