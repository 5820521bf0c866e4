import Mathlib.Data.List.Forall2
import Mathlib.Data.List.Induction

/-!
# Runs of a deterministic machine

A machine reads events one by one; `Runs.after` is its state after a list of them.
`Runs.Permitted ok` restricts a list of events by a condition that may look at the
events before each one, and `Runs.invariant` is the induction over permitted runs:
what holds at the start and is kept by every permitted event holds after every
permitted run.  What a machine puts out in answer to its events is counted by
`Runs.answers_after`, and which states can still be reached by `Runs.canReach_iff`.
-/

set_option autoImplicit false

namespace Runs

variable {σ ι : Type} (step : σ → ι → σ) (init : σ)

/-- The state after a list of events. -/
def after (events : List ι) : σ := events.foldl step init

@[simp] theorem after_concat (events : List ι) (e : ι) :
    after step init (events ++ [e]) = step (after step init events) e := by
  simp [after]

/-- Every event meets `ok` with respect to the events before it. -/
def Permitted (ok : List ι → ι → Prop) (events : List ι) : Prop :=
  ∀ before e later, events = before ++ e :: later → ok before e

theorem permitted_nil (ok : List ι → ι → Prop) : Permitted ok [] := by
  intro before e later heq
  simp at heq

/-- A permitted run is continued by a permitted event. -/
theorem Permitted.concat {ok : List ι → ι → Prop} {events : List ι} {e : ι}
    (h : Permitted ok events) (he : ok events e) : Permitted ok (events ++ [e]) := by
  intro before e' later heq
  rcases List.eq_nil_or_concat later with rfl | ⟨rest, last, rfl⟩
  · obtain ⟨rfl, hlast⟩ := List.append_inj' heq rfl
    obtain rfl : e = e' := by simpa using hlast
    exact he
  · rw [List.concat_eq_append, ← List.cons_append, ← List.append_assoc] at heq
    obtain ⟨rfl, -⟩ := List.append_inj' heq rfl
    exact h before e' rest rfl

theorem Permitted.imp {ok ok' : List ι → ι → Prop} (hok : ∀ before e, ok before e → ok' before e)
    {events : List ι} (h : Permitted ok events) : Permitted ok' events :=
  fun before e later heq => hok before e (h before e later heq)

theorem Permitted.of_prefix {ok : List ι → ι → Prop} {events before : List ι}
    (h : Permitted ok events) (hpre : before <+: events) : Permitted ok before := by
  obtain ⟨later, rfl⟩ := hpre
  intro b e l heq
  exact h b e (l ++ later) (by simp [heq])

theorem permitted_concat {ok : List ι → ι → Prop} {events : List ι} {e : ι}
    (h : Permitted ok (events ++ [e])) : Permitted ok events ∧ ok events e := by
  constructor
  · exact h.of_prefix (List.prefix_append _ _)
  · exact h events e [] rfl

theorem after_append (events later : List ι) :
    after step init (events ++ later) = after step (after step init events) later :=
  List.foldl_append

/-- Where the condition is on the state, a run goes on from the state it has reached. -/
theorem permitted_append {ok : σ → ι → Prop} (events later : List ι) :
    Permitted (fun before e => ok (after step init before) e) (events ++ later) ↔
      Permitted (fun before e => ok (after step init before) e) events ∧
        Permitted (fun before e => ok (after step (after step init events) before) e) later := by
  constructor
  · intro h
    refine ⟨h.of_prefix (List.prefix_append _ _), ?_⟩
    intro before e rest heq
    rw [← after_append]
    exact h (events ++ before) e rest (by rw [heq, List.append_assoc])
  · rintro ⟨h, hlater⟩
    induction later using List.reverseRecOn with
    | nil => rwa [List.append_nil]
    | append_singleton later e ih =>
      obtain ⟨hp, he⟩ := permitted_concat hlater
      rw [← List.append_assoc]
      apply (ih hp).concat
      rw [after_append]
      exact he

/-- One event and then the rest. -/
theorem permitted_cons {ok : σ → ι → Prop} (e : ι) (later : List ι) :
    Permitted (fun before e => ok (after step init before) e) (e :: later) ↔
      ok init e ∧
        Permitted (fun before e' => ok (after step (step init e) before) e') later := by
  rw [← List.singleton_append, permitted_append]
  apply and_congr_left'
  constructor
  · intro h
    exact h [] e [] rfl
  · intro h
    exact (permitted_nil _).concat h

/-- **Induction over permitted runs.** -/
theorem invariant {ok : List ι → ι → Prop} (P : List ι → σ → Prop) (h0 : P [] init)
    (hstep : ∀ events e, Permitted ok events → ok events e →
      P events (after step init events) →
      P (events ++ [e]) (step (after step init events) e))
    (events : List ι) (h : Permitted ok events) : P events (after step init events) := by
  induction events using List.reverseRecOn with
  | nil => exact h0
  | append_singleton events e ih =>
    obtain ⟨hp, he⟩ := permitted_concat h
    rw [after_concat]
    exact hstep events e hp he (ih hp)

/-- Every run is permitted when nothing is asked of it. -/
theorem permitted_true (events : List ι) : Permitted (fun _ _ => True) events :=
  fun _ _ _ _ => trivial

/-- **Events without effect can be left out.**  `I` is an invariant under which an event
that `keep` drops changes nothing. -/
theorem after_filter (I : σ → Prop) (keep : ι → Bool) (hkeep : ∀ s e, I s → I (step s e))
    (hskip : ∀ s e, I s → keep e = false → step s e = s) (h0 : I init) (events : List ι) :
    after step init (events.filter keep) = after step init events := by
  unfold after
  induction events generalizing init with
  | nil => rfl
  | cons e events ih =>
    rw [List.filter_cons, List.foldl_cons]
    split
    · rw [List.foldl_cons]
      exact ih (step init e) (hkeep init e h0)
    · next hdrop =>
      rw [hskip init e h0 (by simpa using hdrop)]
      exact ih init h0

/-! ## The last write -/

section

variable {V : Type} {step init} (read : σ → V) {write : ι → Option V}

/-- Where an event writes what is read after it, or leaves what is read, the last write is read. -/
theorem read_after (h : ∀ s e, read (step s e) = (write e).getD (read s)) (events : List ι) :
    read (after step init events) = (events.filterMap write).getLast?.getD (read init) := by
  induction events using List.reverseRecOn with
  | nil => rfl
  | append_singleton events e ih =>
    rw [after_concat, h, ih, List.filterMap_append]
    cases hwrite : write e with
    | none => simp [hwrite]
    | some v => simp [hwrite]

/-- What is read and was not there was written, and nothing has been written since. -/
theorem read_after_iff (h : ∀ s e, read (step s e) = (write e).getD (read s)) {v : V}
    (hinit : read init ≠ v) (events : List ι) :
    read (after step init events) = v ↔ ∃ before e later, events = before ++ e :: later ∧
      write e = some v ∧ ∀ e' ∈ later, write e' = none := by
  constructor
  · intro hread
    induction events using List.reverseRecOn with
    | nil => exact absurd hread hinit
    | append_singleton events e ih =>
      rw [after_concat, h] at hread
      cases hwrite : write e with
      | some w =>
        rw [hwrite] at hread
        have hw : w = v := hread
        exact ⟨events, e, [], rfl, hw ▸ hwrite, List.forall_mem_nil _⟩
      | none =>
        rw [hwrite] at hread
        obtain ⟨before, e', later, rfl, hv, hlater⟩ := ih hread
        refine ⟨before, e', later ++ [e], by simp, hv, ?_⟩
        exact List.forall_mem_append.mpr ⟨hlater, List.forall_mem_singleton.mpr hwrite⟩
  · rintro ⟨before, e, later, rfl, hv, hlater⟩
    have hnone : later.filterMap write = [] := List.filterMap_eq_nil_iff.mpr hlater
    rw [read_after read h, List.filterMap_append, List.filterMap_cons_some hv, hnone]
    simp

end

/-! ## Continuations -/

section

variable (ok : σ → ι → Prop) (P : σ → Prop) {step init} {s : σ}

/-- Permitted events lead from a state to one with the property. -/
def CanReach (step : σ → ι → σ) (s : σ) : Prop :=
  ∃ later, Permitted (fun before e => ok (after step s before) e) later ∧ P (after step s later)

variable {ok P}

theorem CanReach.now (h : P s) : CanReach ok P step s := ⟨[], permitted_nil _, h⟩

theorem CanReach.of_step {e : ι} (he : ok s e) (h : CanReach ok P step (step s e)) :
    CanReach ok P step s := by
  obtain ⟨later, hlater, hP⟩ := h
  exact ⟨e :: later, (permitted_cons step s e later).mpr ⟨he, hlater⟩, hP⟩

/-- A permitted run can be continued to a state that can be reached from its end. -/
theorem canReach_after {events : List ι}
    (h : Permitted (fun before e => ok (after step init before) e) events) :
    CanReach ok P step (after step init events) ↔
      ∃ later, Permitted (fun before e => ok (after step init before) e) (events ++ later) ∧
        P (after step init (events ++ later)) := by
  apply exists_congr
  intro later
  rw [permitted_append, after_append]
  constructor
  · rintro ⟨hlater, hP⟩
    exact ⟨⟨h, hlater⟩, hP⟩
  · rintro ⟨⟨-, hlater⟩, hP⟩
    exact ⟨hlater, hP⟩

/-- **The states from which others can be reached.**  `I` is an invariant under which `Q` leads to
`P`, holds where `P` does, and does not come back once it is lost. -/
theorem canReach_iff (I Q : σ → Prop) (hkeep : ∀ s e, I s → ok s e → I (step s e))
    (hlost : ∀ s e, I s → ok s e → Q (step s e) → Q s) (hP : ∀ s, P s → Q s)
    (hreach : ∀ s, I s → Q s → CanReach ok P step s) (hs : I s) :
    CanReach ok P step s ↔ Q s := by
  constructor
  · rintro ⟨later, hlater, hreached⟩
    induction later generalizing s with
    | nil => exact hP s hreached
    | cons e later ih =>
      obtain ⟨he, hrest⟩ := (permitted_cons step s e later).mp hlater
      exact hlost s e hs he (ih (hkeep s e hs he) hrest hreached)
  · exact hreach s hs

end

/-! ## Answers -/

section

variable {β : Type} {step init} (out : σ → List β) {Answers : ι → β → Prop}

/-- **Where an event puts out nothing or one answer to itself,** what a run puts out answers
events of the run, each at most once and in their order. -/
theorem answers_after (hinit : out init = []) (hstep : ∀ before e,
      out (after step init (before ++ [e])) = out (after step init before) ∨
        ∃ b, Answers e b ∧
          out (after step init (before ++ [e])) = out (after step init before) ++ [b])
    (events : List ι) : ∃ answered, answered.Sublist events ∧
      List.Forall₂ Answers answered (out (after step init events)) := by
  induction events using List.reverseRecOn with
  | nil =>
    refine ⟨[], List.Sublist.refl _, ?_⟩
    rw [after, List.foldl_nil, hinit]
    exact .nil
  | append_singleton events e ih =>
    obtain ⟨answered, hsub, hanswers⟩ := ih
    rcases hstep events e with hnone | ⟨b, hb, hone⟩
    · rw [hnone]
      exact ⟨answered, hsub.trans (List.sublist_append_left _ _), hanswers⟩
    · rw [hone]
      refine ⟨answered ++ [e], hsub.append (List.Sublist.refl _), ?_⟩
      exact List.rel_append hanswers (.cons hb .nil)

end

end Runs
