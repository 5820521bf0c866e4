import Mathlib.Data.List.Basic

/-!
# Cutting a list into chunks

`chunks m l` cuts `l` into pieces of `m` elements, the last one possibly shorter.
An empty list is one empty piece, so there is always a first piece.
-/

set_option autoImplicit false

namespace Chunks

variable {α : Type}

/-- Cut `l` into pieces of `m`, at most `fuel + 1` of them. -/
def chunksUpTo (m : ℕ) : ℕ → List α → List (List α)
  | 0, l => [l]
  | fuel + 1, l => if l.length ≤ m then [l] else l.take m :: chunksUpTo m fuel (l.drop m)

/-- Cut `l` into pieces of `m`.  A piece holds an element, so the length of the
list is fuel enough. -/
def chunks (m : ℕ) (l : List α) : List (List α) := chunksUpTo m l.length l

/-- Nothing is lost, whatever the fuel: the rest becomes the last piece. -/
theorem flatten_chunksUpTo (m fuel : ℕ) (l : List α) : (chunksUpTo m fuel l).flatten = l := by
  induction fuel generalizing l with
  | zero => simp [chunksUpTo]
  | succ fuel ih =>
    rw [chunksUpTo]
    split
    · simp
    · rw [List.flatten_cons, ih, List.take_append_drop]

/-- Putting the pieces together gives the list back. -/
theorem flatten_chunks (m : ℕ) (l : List α) : (chunks m l).flatten = l :=
  flatten_chunksUpTo m l.length l

theorem chunks_ne_nil (m : ℕ) (l : List α) : chunks m l ≠ [] := by
  unfold chunks
  cases l.length with
  | zero => simp [chunksUpTo]
  | succ fuel => rw [chunksUpTo]; split <;> simp

/-- At most one piece more than the fuel. -/
theorem length_chunksUpTo_le (m fuel : ℕ) (l : List α) :
    (chunksUpTo m fuel l).length ≤ fuel + 1 := by
  induction fuel generalizing l with
  | zero => simp [chunksUpTo]
  | succ fuel ih =>
    rw [chunksUpTo]
    split
    · simp
    · have := ih (l.drop m)
      simp only [List.length_cons]
      omega

theorem length_chunks_le (m : ℕ) (l : List α) : (chunks m l).length ≤ l.length + 1 :=
  length_chunksUpTo_le m l.length l

/-! ## Sizes -/

/-- With fuel for the list no piece is longer than `m`. -/
theorem length_le_of_mem_chunksUpTo {m fuel : ℕ} {l piece : List α} (hm : 0 < m)
    (hfuel : l.length ≤ fuel) (h : piece ∈ chunksUpTo m fuel l) : piece.length ≤ m := by
  induction fuel generalizing l with
  | zero =>
    rw [chunksUpTo, List.mem_singleton] at h
    subst h
    omega
  | succ fuel ih =>
    rw [chunksUpTo] at h
    split at h
    · next hlast =>
      rw [List.mem_singleton] at h
      subst h
      exact hlast
    · rcases List.mem_cons.mp h with rfl | hrest
      · exact List.length_take_le m l
      · refine ih ?_ hrest
        rw [List.length_drop]
        omega

/-- No piece is longer than `m`. -/
theorem length_le_of_mem_chunks {m : ℕ} (hm : 0 < m) {l piece : List α} (h : piece ∈ chunks m l) :
    piece.length ≤ m :=
  length_le_of_mem_chunksUpTo hm (Nat.le_refl _) h

theorem chunks_of_le {m : ℕ} {l : List α} (h : l.length ≤ m) : chunks m l = [l] := by
  unfold chunks
  cases l.length with
  | zero => rfl
  | succ fuel => rw [chunksUpTo, if_pos h]

/-- The first piece takes what it can. -/
theorem head?_map_length_chunks (m : ℕ) (l : List α) :
    ((chunks m l).map List.length).head? = some (min m l.length) := by
  unfold chunks
  cases hlength : l.length with
  | zero => simp [chunksUpTo, hlength]
  | succ fuel =>
    rw [chunksUpTo]
    split
    · next hlast =>
      simp only [List.map_cons, List.head?_cons, Option.some.injEq]
      omega
    · simp [hlength]

/-- **Two ways to cut give pieces of the same sizes** exactly when they are the same or both have
nothing to cut. -/
theorem map_length_chunks_eq_iff {m n : ℕ} {l : List α} :
    (chunks m l).map List.length = (chunks n l).map List.length ↔
      m = n ∨ l.length ≤ min m n := by
  constructor
  · intro h
    have hhead := congrArg List.head? h
    rw [head?_map_length_chunks, head?_map_length_chunks, Option.some.injEq] at hhead
    omega
  · rintro (rfl | hlength)
    · rfl
    · rw [chunks_of_le (by omega : l.length ≤ m), chunks_of_le (by omega : l.length ≤ n)]

end Chunks
