import Mathlib.Data.List.Perm.Basic
import NacAbe.Analysis.PolicyInstallation

/-!
# Every command is accounted for

Whatever the network delivers, drops, repeats or makes up, a command that was issued is
waiting for its reply or has been reported, once, and nothing else is
(`commands_accounted`).  What has been reported stays, and an error is reported with one of
three texts (data-owner.cpp:54-89).
-/

set_option autoImplicit false

namespace NacAbe.Analysis

open NacAbe PolicyExchange Producer

variable (signer : Signer) (auth : Authentication) (mem : Memory)

/-- The command an event issues, with the Interest that goes out for it, where an Interest can
have its name. -/
def issuedBy : Event → Option SentCommand
  | .command command seed =>
    if (DataOwner.policyName command).Requestable then some (DataOwner.signed signer command seed)
    else none
  | _ => none

/-- The commands of a run, in their order. -/
def commanded (events : List Event) : List SentCommand := events.filterMap (issuedBy signer)

/-- A report is what the handlers can make: a success carries that word, and an error is one of
three. -/
def Reportable : CommandReport → Prop
  | .success validData => validData.content = ascii "success"
  | .error what => what = "register failed" ∨ what = "nack" ∨ what = "time out"

variable {signer auth mem} {x : PolicyExchange} {e : Event}

/-- The Interests that a packet answers, and the others. -/
theorem issued_onData (owner : DataOwner) (data : Data) (digest : Bytes) :
    (issued ((DataOwner.onData data digest).exec owner).2).Perm (issued owner) := by
  have hsplit := List.filter_append_perm (fun sent : SentCommand =>
    !sent.interest.matchesData data digest) owner.outstanding
  simp only [Bool.not_not] at hsplit
  rw [DataOwner.exec_onData, issued, issued, List.map_append, List.map_map]
  have hfst : (Prod.fst ∘ fun sent : SentCommand => (sent, DataOwner.validationCallback data)) =
      id := rfl
  rw [hfst, List.map_id]
  refine (List.Perm.append_left _ List.perm_append_comm).trans ?_
  rw [← List.append_assoc]
  exact hsplit.append_right _

/-- A nack or a timeout moves a command from the waiting to the reported ones. -/
theorem issued_onFailure (owner : DataOwner) (position : ℕ) (isNack : Bool) :
    (issued ((DataOwner.onFailure position isNack).exec owner).2).Perm (issued owner) := by
  rw [DataOwner.exec_onFailure]
  cases hsent : owner.outstanding[position]? with
  | none => exact .refl _
  | some sent =>
    obtain ⟨hposition, rfl⟩ := List.getElem?_eq_some_iff.mp hsent
    have hpick := List.getElem_cons_eraseIdx_perm hposition
    rw [issued, issued, List.map_append, List.map_singleton]
    have hfront : (owner.outstanding.eraseIdx position ++ (owner.reported.map Prod.fst ++
        [owner.outstanding[position]])).Perm
        (owner.outstanding[position] :: owner.outstanding.eraseIdx position ++
          owner.reported.map Prod.fst) := by
      rw [← List.append_assoc]
      exact List.perm_append_singleton _ _
    exact hfront.trans (hpick.append_right _)

/-- **One event** adds the command it issues, and moves others from waiting to reported. -/
theorem issued_next (signer : Signer) (auth : Authentication) (mem : Memory) (x : PolicyExchange)
    (e : Event) :
    (issued (next signer auth mem x e).owner).Perm
      (issued x.owner ++ (issuedBy signer e).toList) := by
  cases e with
  | command command seed =>
    have hnext : (next signer auth mem x (.command command seed)).owner =
        { x.owner with outstanding := x.owner.outstanding ++
          (issuedBy signer (.command command seed)).toList } := by
      rw [next, DataOwner.exec_commandProducerPolicy, issuedBy]
      split
      · rfl
      · simp
    rw [hnext, issued, issued, List.append_assoc, List.append_assoc]
    exact List.perm_append_comm.append_left _
  | deliverData data digest =>
    simp only [issuedBy, Option.toList_none, List.append_nil]
    exact issued_onData x.owner data digest
  | commandFailure position isNack =>
    simp only [issuedBy, Option.toList_none, List.append_nil]
    exact issued_onFailure x.owner position isNack
  | deliverInterest interest => exact List.append_nil _ ▸ .refl _
  | publicParams pubParamData validationError => exact List.append_nil _ ▸ .refl _

/-- What one event reports comes after what has been reported, and can be reported. -/
theorem reported_next (signer : Signer) (auth : Authentication) (mem : Memory)
    (x : PolicyExchange) (e : Event) :
    ∃ new, (next signer auth mem x e).owner.reported = x.owner.reported ++ new ∧
      ∀ entry ∈ new, Reportable entry.2 := by
  have hnothing : ∀ owner : DataOwner, owner.reported = x.owner.reported →
      ∃ new, owner.reported = x.owner.reported ++ new ∧ ∀ entry ∈ new, Reportable entry.2 :=
    fun owner h => ⟨[], by rw [h, List.append_nil], List.forall_mem_nil _⟩
  cases e with
  | command command seed =>
    rw [next, DataOwner.exec_commandProducerPolicy]
    split
    · exact hnothing _ rfl
    · exact hnothing _ rfl
  | deliverInterest interest => exact hnothing _ rfl
  | publicParams pubParamData validationError => exact hnothing _ rfl
  | deliverData data digest =>
    refine ⟨_, congrArg DataOwner.reported (DataOwner.exec_onData x.owner data digest), ?_⟩
    intro entry hentry
    obtain ⟨sent, -, rfl⟩ := List.mem_map.mp hentry
    rw [DataOwner.validationCallback]
    split
    · exact Or.inl rfl
    · next hword => exact not_not.mp hword
  | commandFailure position isNack =>
    have hexec := DataOwner.exec_onFailure x.owner position isNack
    have howner : (next signer auth mem x (.commandFailure position isNack)).owner =
        ((DataOwner.onFailure position isNack).exec x.owner).2 := rfl
    rw [howner, hexec]
    cases x.owner.outstanding[position]? with
    | none => exact hnothing _ rfl
    | some sent =>
      refine ⟨_, rfl, ?_⟩
      intro entry hentry
      rw [List.mem_singleton.mp hentry]
      cases isNack
      · exact Or.inr (Or.inr rfl)
      · exact Or.inr (Or.inl rfl)

/-- Every report of a run says something that can be reported. -/
theorem reportable_run (signer : Signer) (auth : Authentication) (mem : Memory)
    (producer : Producer) (events : List Event) :
    ∀ entry ∈ (run signer auth mem producer events).owner.reported, Reportable entry.2 := by
  refine Runs.invariant (next signer auth mem) ⟨.initial, producer⟩
    (fun _ x => ∀ entry ∈ x.owner.reported, Reportable entry.2) (List.forall_mem_nil _) ?_ events
    (Runs.permitted_true events)
  intro events e _ _ ih entry hentry
  obtain ⟨new, hreported, hnew⟩ := reported_next signer auth mem
    (Runs.after (next signer auth mem) ⟨.initial, producer⟩ events) e
  rw [hreported, List.mem_append] at hentry
  exact hentry.elim (ih entry) (hnew entry)

/-- What is waited for and what is reported are the commands given, each once. -/
theorem issued_run (signer : Signer) (auth : Authentication) (mem : Memory) (producer : Producer)
    (events : List Event) :
    (issued (run signer auth mem producer events).owner).Perm (commanded signer events) := by
  refine Runs.invariant (next signer auth mem) ⟨.initial, producer⟩
    (fun events x => (issued x.owner).Perm (commanded signer events)) (.refl _) ?_ events
    (Runs.permitted_true events)
  intro events e _ _ ih
  rw [commanded, List.filterMap_append]
  exact (issued_next signer auth mem _ e).trans (ih.append (.of_eq (by
    cases h : issuedBy signer e <;> simp [h])))

/-- **Every command is accounted for.**  At any point of any run the commands that wait and
those that have been reported are, each as often as it was issued, the commands that were
issued; the reports made so far stay as they are; and each of them is the word "success" or
one of the three errors. -/
theorem commands_accounted (signer : Signer) (auth : Authentication) (mem : Memory)
    (producer : Producer) (events later : List Event) :
    let owner := (run signer auth mem producer events).owner
    (owner.outstanding ++ owner.reported.map Prod.fst).Perm (commanded signer events) ∧
      owner.reported <+: (run signer auth mem producer (events ++ later)).owner.reported ∧
      ∀ entry ∈ owner.reported, Reportable entry.2 := by
  intro owner
  refine ⟨issued_run signer auth mem producer events, ?_,
    reportable_run signer auth mem producer events⟩
  induction later using List.reverseRecOn with
  | nil => rw [List.append_nil]
  | append_singleton later e ih =>
    obtain ⟨new, hreported, -⟩ := reported_next signer auth mem
      (run signer auth mem producer (events ++ later)) e
    have hlast : run signer auth mem producer (events ++ (later ++ [e])) =
        next signer auth mem (run signer auth mem producer (events ++ later)) e := by
      rw [← List.append_assoc]
      exact Runs.after_concat _ _ _ _
    rw [hlast, hreported]
    exact ih.trans (List.prefix_append _ _)

end NacAbe.Analysis
