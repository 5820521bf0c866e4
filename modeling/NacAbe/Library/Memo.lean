import NacAbe.Library.PartialMap
import NacAbe.Library.Runs

/-!
# Stores that remember what was made

A request asks for a key.  What is kept for the key answers it; otherwise the request
makes a value, or fails to, and what it makes is kept until the store is told to
forget.  With each value the store notes the request that made it, so that answers can
be compared as objects: two requests are answered by one object exactly when they ask
for one key and nothing was forgotten between them (`Memo.same_origin_iff`).
-/

set_option autoImplicit false

/-- What is kept, each value with the number of the request that made it, and how many
requests there were. -/
structure Memo (K V : Type) where
  kept : PartialMap K (ℕ × V)
  count : ℕ

namespace Memo

/-- A request, with what it makes for its key when it has to. -/
inductive Request (K V : Type)
  | ask (key : K) (made : Option V)
  | forget

variable {K V : Type}

def initial : Memo K V := ⟨.empty, 0⟩

/-- The values that are kept. -/
def values (m : Memo K V) : PartialMap K V := ⟨fun key => (m.kept.find key).map Prod.snd⟩

@[simp] theorem values_initial : (initial : Memo K V).values = .empty := rfl

variable [DecidableEq K]

/-- One request.  `insert` leaves a value that is there alone. -/
def step (m : Memo K V) : Request K V → Memo K V
  | .ask key (some v) => ⟨m.kept.insert key (m.count, v), m.count + 1⟩
  | .ask _ none => ⟨m.kept, m.count + 1⟩
  | .forget => ⟨.empty, m.count + 1⟩

/-- The store after a list of requests. -/
def run (requests : List (Request K V)) : Memo K V := Runs.after step initial requests

@[simp] theorem run_concat (requests : List (Request K V)) (r : Request K V) :
    run (requests ++ [r]) = (run requests).step r := Runs.after_concat step initial requests r

@[simp] theorem count_step (m : Memo K V) (r : Request K V) : (m.step r).count = m.count + 1 := by
  cases r with
  | ask key made => cases made <;> rfl
  | forget => rfl

/-! ## The values alone -/

@[simp] theorem values_step_forget (m : Memo K V) : (m.step .forget).values = .empty := rfl

@[simp] theorem values_step_failed (m : Memo K V) (key : K) :
    (m.step (.ask key none)).values = m.values := rfl

/-- A value that is made is kept unless its key has one. -/
@[simp] theorem values_step_made (m : Memo K V) (key : K) (v : V) :
    (m.step (.ask key (some v))).values = m.values.insert key v := by
  apply PartialMap.ext
  funext a
  show ((m.kept.insert key (m.count, v)).find a).map Prod.snd = _
  rw [PartialMap.find_insert, PartialMap.find_insert]
  split
  · show some ((m.kept.find key).getD (m.count, v)).2 =
      some (((m.kept.find key).map Prod.snd).getD v)
    cases m.kept.find key <;> rfl
  · rfl

/-! ## Where the values come from -/

/-- What a step keeps was kept before it, or is made by it for a key without a value. -/
theorem kept_step_cases {m : Memo K V} {r : Request K V} {key : K} {i : ℕ} {v : V}
    (h : (m.step r).kept.find key = some (i, v)) :
    (m.kept.find key = some (i, v) ∧ r ≠ .forget) ∨
      (m.kept.find key = none ∧ i = m.count ∧ r = .ask key (some v)) := by
  cases r with
  | forget => cases h
  | ask key' made =>
    cases made with
    | none => exact Or.inl ⟨h, nofun⟩
    | some v' =>
      rw [step, PartialMap.find_insert] at h
      split at h
      · next heq =>
        subst heq
        cases hfind : m.kept.find key with
        | none =>
          rw [hfind] at h
          cases h
          exact Or.inr ⟨rfl, rfl, rfl⟩
        | some w =>
          rw [hfind] at h
          exact Or.inl ⟨h, nofun⟩
      · exact Or.inl ⟨h, nofun⟩

/-- A value stays until something is forgotten. -/
theorem kept_step_of_kept {m : Memo K V} {r : Request K V} {key : K} {w : ℕ × V}
    (h : m.kept.find key = some w) (hr : r ≠ .forget) : (m.step r).kept.find key = some w := by
  cases r with
  | forget => exact absurd rfl hr
  | ask key' made =>
    cases made with
    | none => exact h
    | some v => exact PartialMap.find_insert_of_some h key' (m.count, v)

/-- The origin of a value: the request of that number asked for the key when there was no
value for it and made the value, and nothing was forgotten since. -/
structure Origin (requests : List (Request K V)) (key : K) (i : ℕ) (v : V) : Prop where
  made : requests[i]? = some (.ask key (some v))
  missed : (run (requests.take i)).kept.find key = none
  since : .forget ∉ requests.drop i

theorem count_run (requests : List (Request K V)) : (run requests).count = requests.length := by
  induction requests using List.reverseRecOn with
  | nil => rfl
  | append_singleton requests r ih => simp [ih]

/-- **Every value that is kept has its origin.** -/
theorem origin_of_kept {requests : List (Request K V)} {key : K} {i : ℕ} {v : V}
    (h : (run requests).kept.find key = some (i, v)) : Origin requests key i v := by
  induction requests using List.reverseRecOn with
  | nil => cases h
  | append_singleton requests r ih =>
    rw [run_concat] at h
    obtain ⟨hold, hr⟩ | ⟨hnone, rfl, rfl⟩ := kept_step_cases h
    · have ho := ih hold
      have hi : i < requests.length := (List.getElem?_eq_some_iff.mp ho.made).1
      refine ⟨?_, ?_, ?_⟩
      · rw [List.getElem?_append_left hi]
        exact ho.made
      · rw [List.take_append_of_le_length (by omega)]
        exact ho.missed
      · rw [List.drop_append_of_le_length (by omega), List.mem_append, List.mem_singleton]
        exact fun hmem => hmem.elim ho.since fun heq => hr heq.symm
    · rw [count_run]
      refine ⟨by simp, ?_, by simp⟩
      rw [List.take_left]
      exact hnone

/-! ## One object -/

/-- What is kept stays, with the number of its request, until the memo forgets. -/
theorem kept_append_of_kept {requests more : List (Request K V)} {key : K} {w : ℕ × V}
    (h : (run requests).kept.find key = some w) (hmore : .forget ∉ more) :
    (run (requests ++ more)).kept.find key = some w := by
  induction more using List.reverseRecOn with
  | nil => rwa [List.append_nil]
  | append_singleton more r ih =>
    rw [List.mem_append, List.mem_singleton, not_or] at hmore
    rw [← List.append_assoc, run_concat]
    exact kept_step_of_kept (ih hmore.1) (Ne.symm hmore.2)

/-- **Two requests are answered by one object exactly when** they ask for one key and
nothing is forgotten between them. -/
theorem same_origin_iff {before middle : List (Request K V)} {key key' : K}
    {made made' : Option V} {i i' : ℕ} {v v' : V}
    (h : (run (before ++ [.ask key made])).kept.find key = some (i, v))
    (h' : (run (before ++ .ask key made :: middle ++ [.ask key' made'])).kept.find key' =
      some (i', v')) :
    i = i' ↔ key = key' ∧ .forget ∉ middle := by
  have hsplit : before ++ .ask key made :: middle ++ [.ask key' made'] =
      (before ++ [.ask key made]) ++ (middle ++ [.ask key' made']) := by simp
  rw [hsplit] at h'
  constructor
  · rintro rfl
    have ho := origin_of_kept h
    have ho' := origin_of_kept h'
    have hi : i < (before ++ [Request.ask key made]).length :=
      (List.getElem?_eq_some_iff.mp ho.made).1
    have hmade := ho'.made
    rw [List.getElem?_append_left hi, ho.made] at hmade
    have hsince := ho'.since
    rw [List.drop_append_of_le_length (by omega), List.mem_append, List.mem_append] at hsince
    refine ⟨?_, fun hmiddle => hsince (Or.inr (Or.inl hmiddle))⟩
    injection hmade with hask
    injection hask
  · rintro ⟨rfl, hmiddle⟩
    have hrest : .forget ∉ middle ++ [Request.ask key made'] := by simp [hmiddle]
    have hkept := kept_append_of_kept h hrest
    rw [h'] at hkept
    cases hkept
    rfl

end Memo
