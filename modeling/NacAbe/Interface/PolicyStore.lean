import NacAbe.Library.LongestPrefix
import NacAbe.Program.Producer

/-!
# What the policy store holds and finds

`installed_spec`: after a sequence of commands the store has one entry for each
commanded prefix, with the value of the last command for it.  `findMatched_spec`: the
lookup returns the value of the longest matching entry whose prefix has a component,
and the empty value where there is none: its running maximum starts at 0 and an entry
must exceed it.
-/

set_option autoImplicit false

namespace NacAbe.PolicyTable

open LongestPrefix

variable {α : Type}

/-- The store after a sequence of commands. -/
def installed (commands : List (Name × List α)) : List (Name × List α) :=
  commands.foldl (fun items command => addNew command.1 command.2 items) []

/-! ## Adding -/

/-- The prefixes of a table after an installation. -/
theorem mem_keys_addNew {dataPrefix p : Name} {value : List α} {items : List (Name × List α)} :
    p ∈ (addNew dataPrefix value items).map Prod.fst ↔
      p = dataPrefix ∨ p ∈ items.map Prod.fst := by
  induction items with
  | nil => simp [addNew]
  | cons item items ih =>
    rw [addNew]
    split
    · next h =>
      simp only [List.map_cons, List.mem_cons, h]
      tauto
    · simp only [List.map_cons, List.mem_cons, ih]
      tauto

/-- No prefix comes to stand twice. -/
theorem nodup_addNew {dataPrefix : Name} {value : List α} {items : List (Name × List α)}
    (h : (items.map Prod.fst).Nodup) :
    ((addNew dataPrefix value items).map Prod.fst).Nodup := by
  induction items with
  | nil => simp [addNew]
  | cons item items ih =>
    rw [List.map_cons, List.nodup_cons] at h
    rw [addNew]
    split
    · simpa using h
    · next hne =>
      rw [List.map_cons, List.nodup_cons, mem_keys_addNew]
      refine ⟨?_, ih h.2⟩
      rintro (heq | hmem)
      · exact hne heq
      · exact h.1 hmem

/-- One entry is set: the first one for the prefix in its place, or a new one at the end.
Every other entry stays where it is. -/
def SetsEntry (dataPrefix : Name) (value : List α) (items items' : List (Name × List α)) : Prop :=
  (∃ before old later, items = before ++ (dataPrefix, old) :: later ∧
      dataPrefix ∉ before.map Prod.fst ∧ items' = before ++ (dataPrefix, value) :: later) ∨
    (dataPrefix ∉ items.map Prod.fst ∧ items' = items ++ [(dataPrefix, value)])

/-- An installation sets one entry. -/
theorem setsEntry_addNew (dataPrefix : Name) (value : List α) (items : List (Name × List α)) :
    SetsEntry dataPrefix value items (addNew dataPrefix value items) := by
  induction items with
  | nil => exact Or.inr ⟨by simp, rfl⟩
  | cons item items ih =>
    rw [addNew]
    split
    · next h =>
      subst h
      exact Or.inl ⟨[], item.2, items, rfl, by simp, rfl⟩
    · next hne =>
      have hne' : dataPrefix ≠ item.1 := fun heq => hne heq.symm
      rcases ih with ⟨before, old, later, hold, hbefore, hnew⟩ | ⟨hnot, hnew⟩
      · refine Or.inl ⟨item :: before, old, later, by rw [hold]; rfl, ?_, by rw [hnew]; rfl⟩
        rw [List.map_cons, List.mem_cons, not_or]
        exact ⟨hne', hbefore⟩
      · refine Or.inr ⟨?_, by rw [hnew]; rfl⟩
        rw [List.map_cons, List.mem_cons, not_or]
        exact ⟨hne', hnot⟩

/-- In a store without duplicates, adding sets one entry and leaves the others. -/
theorem mem_addNew {dataPrefix p : Name} {value v : List α} {items : List (Name × List α)}
    (h : (items.map Prod.fst).Nodup) :
    (p, v) ∈ addNew dataPrefix value items ↔
      if dataPrefix = p then v = value else (p, v) ∈ items := by
  induction items with
  | nil =>
    by_cases hp : dataPrefix = p
    · simp [addNew, hp]
    · have hp' : p ≠ dataPrefix := fun heq => hp heq.symm
      simp [addNew, hp, hp']
  | cons item items ih =>
    rw [List.map_cons, List.nodup_cons] at h
    obtain ⟨q, w⟩ := item
    rw [addNew]
    by_cases hq : q = dataPrefix
    · subst hq
      have hnot : ∀ u, (q, u) ∉ items := fun u hu => h.1 (List.mem_map.mpr ⟨(q, u), hu, rfl⟩)
      rw [if_pos rfl, List.mem_cons, Prod.mk.injEq]
      by_cases hp : q = p
      · subst hp
        simp [hnot]
      · have hp' : p ≠ q := fun heq => hp heq.symm
        simp [hp, hp']
    · rw [if_neg hq, List.mem_cons, ih h.2, List.mem_cons]
      by_cases hp : dataPrefix = p
      · subst hp
        have hne : dataPrefix ≠ q := fun heq => hq heq.symm
        simp [hne]
      · simp [hp]

/-- **One entry for each commanded prefix, with the last value.** -/
theorem installed_spec (commands : List (Name × List α)) :
    ((installed commands).map Prod.fst).Nodup ∧
      ∀ p v, (p, v) ∈ installed commands ↔ lastValue commands p = some v := by
  induction commands using List.reverseRecOn with
  | nil => simp [installed]
  | append_singleton commands command ih =>
    obtain ⟨hnodup, hmem⟩ := ih
    have hlast : installed (commands ++ [command]) =
        addNew command.1 command.2 (installed commands) := by simp [installed]
    rw [hlast]
    refine ⟨nodup_addNew hnodup, ?_⟩
    intro p v
    rw [mem_addNew hnodup, lastValue_concat, hmem]
    by_cases hp : command.1 = p
    · simp [hp, eq_comm]
    · simp [hp]

/-! ## Looking up -/

/-- What the loop of `findMatched` knows after the items `seen`: `max` bounds the prefixes
that match, and `index` is the value of one that attains it, or both are still what they
were at the start. -/
structure Scanned (dataName : Name) (seen : List (Name × List α)) (index : List α) (max : ℕ) :
    Prop where
  bound : ∀ item ∈ seen, item.1 <+: dataName → item.1.length ≤ max
  attained : (index = [] ∧ max = 0) ∨
    0 < max ∧ ∃ p, (p, index) ∈ seen ∧ p <+: dataName ∧ p.length = max

/-- One round of the loop. -/
theorem Scanned.matchStep {dataName : Name} {seen : List (Name × List α)} {index : List α}
    {max : ℕ} (h : Scanned dataName seen index max) (item : Name × List α) :
    Scanned dataName (seen ++ [item]) (PolicyTable.matchStep dataName (index, max) item).1
      (PolicyTable.matchStep dataName (index, max) item).2 := by
  unfold PolicyTable.matchStep
  by_cases hc : (item.1.isPrefixOf dataName && decide (max < item.1.length)) = true
  · simp only [hc, if_true]
    rw [Bool.and_eq_true, List.isPrefixOf_iff_prefix, decide_eq_true_eq] at hc
    refine ⟨?_, Or.inr ⟨by omega, item.1, by simp, hc.1, rfl⟩⟩
    intro item' hitem' hpre
    rcases List.mem_append.mp hitem' with hold | hnew
    · have := h.bound item' hold hpre
      omega
    · rw [List.mem_singleton.mp hnew]
  · simp only [hc, Bool.false_eq_true, if_false]
    refine ⟨?_, ?_⟩
    · intro item' hitem' hpre
      rcases List.mem_append.mp hitem' with hold | hnew
      · exact h.bound item' hold hpre
      · rw [List.mem_singleton.mp hnew] at hpre ⊢
        by_contra hlt
        exact hc (by simp [List.isPrefixOf_iff_prefix.mpr hpre]; omega)
    · rcases h.attained with h0 | ⟨hpos, p, hp, hpre, hlen⟩
      · exact Or.inl h0
      · exact Or.inr ⟨hpos, p, List.mem_append_left _ hp, hpre, hlen⟩

/-- The loop: induction on the items still to come. -/
theorem scanned_foldl {dataName : Name} (items seen : List (Name × List α)) (acc : List α × ℕ)
    (h : Scanned dataName seen acc.1 acc.2) :
    Scanned dataName (seen ++ items) (items.foldl (matchStep dataName) acc).1
      (items.foldl (matchStep dataName) acc).2 := by
  induction items generalizing seen acc with
  | nil => simpa using h
  | cons item items ih =>
    rw [List.foldl_cons, show seen ++ item :: items = (seen ++ [item]) ++ items by simp]
    exact ih (seen ++ [item]) _ (h.matchStep item)

/-- What the loop knows at its end. -/
theorem scanned_findMatched (items : List (Name × List α)) (dataName : Name) :
    ∃ max, Scanned dataName items (findMatched items dataName) max := by
  have h0 : Scanned dataName ([] : List (Name × List α)) [] 0 := ⟨by simp, Or.inl ⟨rfl, rfl⟩⟩
  have h := scanned_foldl items [] ([], 0) h0
  rw [List.nil_append] at h
  exact ⟨_, h⟩

/-- Once an entry for the whole name has been found, no other takes its place. -/
theorem foldl_matchStep_full (items : List (Name × List α)) (dataName : Name) (index : List α) :
    items.foldl (matchStep dataName) (index, dataName.length) = (index, dataName.length) := by
  induction items with
  | nil => rfl
  | cons item items ih =>
    rw [List.foldl_cons]
    have hstep : matchStep dataName (index, dataName.length) item = (index, dataName.length) := by
      unfold matchStep
      apply if_neg
      intro hmatch
      rw [Bool.and_eq_true, List.isPrefixOf_iff_prefix, decide_eq_true_eq] at hmatch
      have := hmatch.1.length_le
      omega
    rw [hstep, ih]

/-- **What is set for a name is found for it,** except for the empty name. -/
theorem findMatched_addNew (items : List (Name × List α)) {dataName : Name} (value : List α)
    (hne : dataName ≠ []) : findMatched (addNew dataName value items) dataName = value := by
  -- No entry before it is for the whole name, and none after it is for a longer one.
  have hfound : ∀ before later : List (Name × List α), dataName ∉ before.map Prod.fst →
      findMatched (before ++ (dataName, value) :: later) dataName = value := by
    intro before later hbefore
    have hstart : Scanned dataName ([] : List (Name × List α)) [] 0 := ⟨by simp, Or.inl ⟨rfl, rfl⟩⟩
    have hscan := scanned_foldl before [] ([], 0) hstart
    rw [List.nil_append] at hscan
    have hpos : 0 < dataName.length := List.length_pos_iff.mpr hne
    have hshort : (before.foldl (matchStep dataName) (([] : List α), 0)).2 < dataName.length := by
      rcases hscan.attained with ⟨-, hzero⟩ | ⟨-, q, hq, hpre, hlen⟩
      · omega
      · have hle := hpre.length_le
        have hother : q.length ≠ dataName.length := by
          intro heq
          have hsame : q = dataName := hpre.eq_of_length heq
          subst hsame
          exact hbefore (List.mem_map_of_mem hq)
        omega
    have hstep : ∀ acc : List α × ℕ, acc.2 < dataName.length →
        matchStep dataName acc (dataName, value) = (value, dataName.length) := by
      intro acc hacc
      unfold matchStep
      apply if_pos
      rw [Bool.and_eq_true, List.isPrefixOf_iff_prefix, decide_eq_true_eq]
      exact ⟨List.prefix_refl _, hacc⟩
    rw [findMatched, List.foldl_append, List.foldl_cons, hstep _ hshort, foldl_matchStep_full]
  rcases setsEntry_addNew dataName value items with
    ⟨before, old, later, -, hbefore, hnew⟩ | ⟨hnot, hnew⟩
  · rw [hnew]
    exact hfound before later hbefore
  · rw [hnew]
    exact hfound items [] hnot

variable {commands : List (Name × List α)} {dataName p : Name} {v : List α}

/-- The lookup finds the governing value, unless it governs through the empty prefix. -/
theorem findMatched_of_governs (h : Governs commands dataName p v) (hp : p ≠ []) :
    findMatched (installed commands) dataName = v := by
  obtain ⟨max, hscan⟩ := scanned_findMatched (installed commands) dataName
  obtain ⟨-, hmem⟩ := installed_spec commands
  have hle : p.length ≤ max := hscan.bound (p, v) ((hmem p v).mpr h.value_eq) h.isPrefix
  have hpos : 0 < p.length := List.length_pos_iff.mpr hp
  rcases hscan.attained with ⟨-, h0⟩ | ⟨-, q, hq, hpre, hlen⟩
  · omega
  · have hgov : Governs commands dataName q (findMatched (installed commands) dataName) := by
      refine ⟨(hmem q _).mp hq, hpre, ?_⟩
      intro q' w' hq' hpre'
      exact hlen ▸ hscan.bound (q', w') ((hmem q' w').mpr hq') hpre'
    exact (hgov.unique h).2

/-- It finds the empty value where no prefix but, possibly, the empty one matches. -/
theorem findMatched_of_short
    (h : ∀ q w, lastValue commands q = some w → q <+: dataName → q = []) :
    findMatched (installed commands) dataName = [] := by
  obtain ⟨max, hscan⟩ := scanned_findMatched (installed commands) dataName
  obtain ⟨-, hmem⟩ := installed_spec commands
  rcases hscan.attained with ⟨hfound, -⟩ | ⟨hpos, q, hq, hpre, hlen⟩
  · exact hfound
  · rw [h q _ ((hmem q _).mp hq) hpre] at hlen
    simp only [List.length_nil] at hlen
    omega

/-- A command for the empty prefix is never found. -/
theorem findMatched_of_governs_nil (h : Governs commands dataName [] v) :
    findMatched (installed commands) dataName = [] := by
  apply findMatched_of_short
  intro q w hq hpre
  have hle := h.longest q w hq hpre
  exact List.length_eq_zero_iff.mp (by simpa using hle)

end NacAbe.PolicyTable
