import Mathlib.Data.List.Basic

/-!
# Lists written with an in-band separator

A loop that puts a separator behind every piece, and the removal of the last one,
write the intercalation of the pieces.  Splitting at the separator undoes this exactly
for the lists whose pieces do not contain it (`splitOn_intercalate_iff`): what comes
out of a split never does.
-/

set_option autoImplicit false

namespace Separated

variable {α : Type}

/-- The loop: every piece with a separator behind it. -/
theorem foldl_terminated (sep : List α) (pieces : List (List α)) (acc : List α) :
    pieces.foldl (fun s piece => s ++ piece ++ sep) acc =
      acc ++ pieces.flatMap (· ++ sep) := by
  induction pieces generalizing acc with
  | nil => simp
  | cons piece pieces ih =>
    rw [List.foldl_cons, ih, List.flatMap_cons]
    simp only [List.append_assoc]

/-- A terminated list of pieces is the intercalated one with one more separator. -/
theorem flatMap_eq_intercalate (sep : List α) {pieces : List (List α)} (h : pieces ≠ []) :
    pieces.flatMap (· ++ sep) = sep.intercalate pieces ++ sep := by
  induction pieces with
  | nil => exact absurd rfl h
  | cons piece pieces ih =>
    cases pieces with
    | nil => simp
    | cons next rest =>
      rw [List.flatMap_cons, ih (by simp), List.intercalate_cons_cons]
      simp only [List.append_assoc]

variable [BEq α] [LawfulBEq α] (sep : α)

/-- What comes out of a split does not contain the separator. -/
theorem notMem_of_mem_splitOn {xs piece : List α} (h : piece ∈ xs.splitOn sep) : sep ∉ piece := by
  induction xs generalizing piece with
  | nil => simp_all
  | cons x xs ih =>
    rw [List.splitOn_cons_eq_if_modifyHead] at h
    split at h
    · rcases List.mem_cons.mp h with rfl | hrest
      · simp
      · exact ih hrest
    · next hx =>
      cases hs : xs.splitOn sep with
      | nil => exact absurd hs (List.splitOn_ne_nil sep xs)
      | cons head rest =>
        rw [hs, List.modifyHead_cons] at h
        have hhead : sep ∉ head := ih (by simp [hs])
        have hne : sep ≠ x := fun heq => hx (by simp [heq])
        rcases List.mem_cons.mp h with rfl | hrest
        · simp [hhead, hne]
        · exact ih (by simp [hs, hrest])

/-- **Splitting undoes the writing exactly when** no piece contains the separator. -/
theorem splitOn_intercalate_iff {pieces : List (List α)} (h : pieces ≠ []) :
    ([sep].intercalate pieces).splitOn sep = pieces ↔ ∀ piece ∈ pieces, sep ∉ piece := by
  constructor
  · intro hsplit piece hpiece
    rw [← hsplit] at hpiece
    exact notMem_of_mem_splitOn sep hpiece
  · exact fun hfree => List.splitOn_intercalate sep hfree h

/-- Lists whose pieces do not contain the separator are told apart. -/
theorem intercalate_injective {pieces pieces' : List (List α)} (h : pieces ≠ [])
    (h' : pieces' ≠ []) (hfree : ∀ piece ∈ pieces, sep ∉ piece)
    (hfree' : ∀ piece ∈ pieces', sep ∉ piece)
    (heq : [sep].intercalate pieces = [sep].intercalate pieces') : pieces = pieces' := by
  rw [← List.splitOn_intercalate sep hfree h, heq, List.splitOn_intercalate sep hfree' h']

end Separated
