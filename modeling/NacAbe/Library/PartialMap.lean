import Mathlib.Logic.Function.Basic

/-!
# Finite maps as partial functions

A keyed store seen through its lookup function.  `insert` keeps the value a key
already has and `assign` replaces it, the two update rules of an ordered map;
`erase` and `empty` remove.  Every operation comes with the one equation that
says what a lookup finds afterwards, and these equations are the simp set of the
structure.
-/

set_option autoImplicit false

/-- A map from `K` to `V`, given by what each key finds. -/
@[ext] structure PartialMap (K V : Type) where
  find : K → Option V

namespace PartialMap

variable {K V : Type}

/-- The map that finds nothing. -/
def empty : PartialMap K V := ⟨fun _ => none⟩

instance : Inhabited (PartialMap K V) := ⟨empty⟩

@[simp] theorem find_empty (a : K) : (empty : PartialMap K V).find a = none := rfl

variable [DecidableEq K]

/-- Add `v` at `k` unless `k` is present: a present key keeps its value. -/
def insert (m : PartialMap K V) (k : K) (v : V) : PartialMap K V :=
  ⟨fun a => if a = k then some ((m.find k).getD v) else m.find a⟩

/-- Set `k` to `v`, whether or not `k` is present. -/
def assign (m : PartialMap K V) (k : K) (v : V) : PartialMap K V :=
  ⟨fun a => if a = k then some v else m.find a⟩

/-- Remove `k`. -/
def erase (m : PartialMap K V) (k : K) : PartialMap K V :=
  ⟨fun a => if a = k then none else m.find a⟩

@[simp] theorem find_insert (m : PartialMap K V) (k : K) (v : V) (a : K) :
    (m.insert k v).find a = if a = k then some ((m.find k).getD v) else m.find a := rfl

@[simp] theorem find_assign (m : PartialMap K V) (k : K) (v : V) (a : K) :
    (m.assign k v).find a = if a = k then some v else m.find a := rfl

@[simp] theorem find_erase (m : PartialMap K V) (k : K) (a : K) :
    (m.erase k).find a = if a = k then none else m.find a := rfl

/-- `insert` never changes what a present key finds. -/
theorem find_insert_of_some {m : PartialMap K V} {a : K} {w : V} (h : m.find a = some w)
    (k : K) (v : V) : (m.insert k v).find a = some w := by
  rw [find_insert]
  split
  · subst a; simp [h]
  · exact h

/-- An insertion at a present key changes nothing. -/
theorem insert_of_some {m : PartialMap K V} {k : K} {w : V} (h : m.find k = some w) (v : V) :
    m.insert k v = m := by
  apply PartialMap.ext
  funext a
  rw [find_insert]
  split
  · subst a; simp [h]
  · rfl

/-- Insert all of `vs`, each at its key: of several with one key the first stays. -/
def insertAll (key : V → K) (m : PartialMap K V) (vs : List V) : PartialMap K V :=
  vs.foldl (fun m v => m.insert (key v) v) m

/-- Inserting many values keeps what is there; of the new ones the first under a key wins. -/
@[simp] theorem find_insertAll (key : V → K) (m : PartialMap K V) (vs : List V) (a : K) :
    (m.insertAll key vs).find a = (m.find a).or (vs.find? fun v => key v = a) := by
  induction vs generalizing m with
  | nil => simp [insertAll]
  | cons v vs ih =>
    have hcons : m.insertAll key (v :: vs) = (m.insert (key v) v).insertAll key vs := rfl
    rw [hcons, ih, find_insert, List.find?_cons]
    by_cases hkey : key v = a
    · subst a
      cases m.find (key v) <;> simp
    · rw [if_neg fun h => hkey h.symm, decide_eq_false hkey]

/-- What is found after an insertion was inserted or found before. -/
theorem find_insert_cases {m : PartialMap K V} {k a : K} {v w : V}
    (h : (m.insert k v).find a = some w) : w = v ∨ m.find a = some w := by
  rw [find_insert] at h
  split at h
  · subst a
    cases hfind : m.find k with
    | none =>
      rw [hfind] at h
      exact Or.inl (Option.some.inj h).symm
    | some u =>
      rw [hfind] at h
      exact Or.inr h
  · exact Or.inr h

end PartialMap
