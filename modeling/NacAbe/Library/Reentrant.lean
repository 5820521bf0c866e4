import Mathlib.Tactic.Common

/-!
# Programs that hand control to outside code

A `Prog` reads and writes a state, may raise an exception, and may *call* outside
code, which hands control back when it returns or raises.  While outside code has
control it may start further programs of the same system, so calls nest.  A
`System` names the programs outside code may start whenever it has control
(`entry`) and those an event loop starts when nothing is running (`event`), and
`System.step` is its transition relation over configurations: a state and the
stack of programs that wait for a call to end.

`Contract` collects what is agreed between the programs and the outside: an
invariant for the moments outside code has control, a relation bounding what it
may do meanwhile, and how a call may end.  `wp` is the weakest precondition of a
program under a contract, and `System.good_of_reaches` is the one induction over
configurations: programs that keep the contract keep it in every reachable
configuration.
-/

set_option autoImplicit false

/-- A program over states `σ` that may raise an `ε` and make outside calls `κ`. -/
inductive Prog (σ ε κ α : Type) : Type
  | ret (a : α)
  | raise (e : ε)
  | read (k : σ → Prog σ ε κ α)
  | write (s : σ) (k : Prog σ ε κ α)
  | call (c : κ) (k : Option ε → Prog σ ε κ α)

namespace Prog

variable {σ ε κ α β : Type}

/-- Run `p`, then `f` on its result; an exception of `p` skips `f`. -/
def bind : Prog σ ε κ α → (α → Prog σ ε κ β) → Prog σ ε κ β
  | .ret a, f => f a
  | .raise e, _ => .raise e
  | .read k, f => .read fun s => (k s).bind f
  | .write s k, f => .write s (k.bind f)
  | .call c k, f => .call c fun o => (k o).bind f

/-- Run `p`; an exception of `p`, or of outside code it calls, runs `h`. -/
def tryCatch : Prog σ ε κ α → (ε → Prog σ ε κ α) → Prog σ ε κ α
  | .ret a, _ => .ret a
  | .raise e, h => h e
  | .read k, h => .read fun s => (k s).tryCatch h
  | .write s k, h => .write s (k.tryCatch h)
  | .call c k, h => .call c fun o => (k o).tryCatch h

instance : Monad (Prog σ ε κ) where
  pure := .ret
  bind := .bind

instance : MonadStateOf σ (Prog σ ε κ) where
  get := .read .ret
  set s := .write s (.ret ())
  modifyGet f := .read fun s => .write (f s).2 (.ret (f s).1)

instance : MonadExceptOf ε (Prog σ ε κ) where
  throw := .raise
  tryCatch := .tryCatch

/-- A pure computation that may fail is a program that touches nothing. -/
instance : MonadLift (Except ε) (Prog σ ε κ) where
  monadLift
    | .ok a => .ret a
    | .error e => .raise e

/-- Call outside code; its exception, if it raises one, is raised here. -/
def callOut (c : κ) : Prog σ ε κ Unit :=
  .call c fun
    | none => .ret ()
    | some e => .raise e

/-- Run `f` on every element in turn. -/
def forEach (f : β → Prog σ ε κ Unit) : List β → Prog σ ε κ Unit
  | [] => pure ()
  | b :: bs => do
    f b
    forEach f bs

/-- Run `f` on every element of a container whose length in a state is `size`.
Once the body has changed that length the iteration goes on over `stale rest`
instead of `rest`: what an invalidated iterator reads is not said. -/
def walk (size : σ → ℕ) (stale : List β → List β) (f : β → Prog σ ε κ Unit) :
    List β → Prog σ ε κ Unit
  | [] => pure ()
  | b :: bs => do
    let before ← get
    f b
    let after ← get
    if size after = size before then walk size stale f bs else forEach f (stale bs)

/-- The run of a program whose calls all return at once and change nothing. -/
def exec : Prog σ ε κ α → σ → Except ε α × σ
  | .ret a, s => (.ok a, s)
  | .raise e, s => (.error e, s)
  | .read k, s => (k s).exec s
  | .write s k, _ => k.exec s
  | .call _ k, s => (k none).exec s

/-- Where a program that has been given control stops: it ends, or it calls out. -/
inductive Stop (σ ε κ α : Type) : Type
  | done (r : Except ε α) (s : σ)
  | calling (c : κ) (k : Option ε → Prog σ ε κ α) (s : σ)

/-- Run a program to its end or its next call. -/
def advance : Prog σ ε κ α → σ → Stop σ ε κ α
  | .ret a, s => .done (.ok a) s
  | .raise e, s => .done (.error e) s
  | .read k, s => (k s).advance s
  | .write s k, _ => k.advance s
  | .call c k, s => .calling c k s

end Prog

/-! ## Contracts and weakest preconditions -/

/-- What programs and outside code rely on.  `inv` holds whenever outside code has
control and `idle` whenever, besides, no program waits for it; `rely` bounds what
a period of outside control may change; `ends` says how a call may end. -/
structure Contract (σ ε κ : Type) where
  inv : σ → Prop
  idle : σ → Prop
  rely : σ → σ → Prop
  ends : κ → Option ε → Prop
  inv_of_idle : ∀ {s}, idle s → inv s
  refl : ∀ s, rely s s
  trans : ∀ {s t u}, rely s t → rely t u → rely s u
  idle_of_rely : ∀ {s t}, idle s → rely s t → inv t → idle t

/-- No call ends by an exception. -/
def Contract.Returns {σ ε κ : Type} (C : Contract σ ε κ) : Prop :=
  ∀ {c o}, C.ends c o → o = none

/-- Both of two contracts. -/
def Contract.and {σ ε κ : Type} (C D : Contract σ ε κ) : Contract σ ε κ where
  inv s := C.inv s ∧ D.inv s
  idle s := C.idle s ∧ D.idle s
  rely s t := C.rely s t ∧ D.rely s t
  ends c o := C.ends c o ∧ D.ends c o
  inv_of_idle h := ⟨C.inv_of_idle h.1, D.inv_of_idle h.2⟩
  refl s := ⟨C.refl s, D.refl s⟩
  trans h h' := ⟨C.trans h.1 h'.1, D.trans h.2 h'.2⟩
  idle_of_rely h hr ht := ⟨C.idle_of_rely h.1 hr.1 ht.1, D.idle_of_rely h.2 hr.2 ht.2⟩

namespace Prog

variable {σ ε κ α β : Type}

/-- `wp C p Q s`: started in `s` under the contract `C`, `p` hands control out only
where the invariant holds, and if it ends it ends with `Q`. -/
def wp (C : Contract σ ε κ) :
    Prog σ ε κ α → (Except ε α → σ → Prop) → σ → Prop
  | .ret a, Q, s => Q (.ok a) s
  | .raise e, Q, s => Q (.error e) s
  | .read k, Q, s => wp C (k s) Q s
  | .write s k, Q, _ => wp C k Q s
  | .call c k, Q, s => C.inv s ∧
      ∀ o t, C.ends c o → C.rely s t → C.inv t → wp C (k o) Q t

variable {C : Contract σ ε κ} {Q : Except ε α → σ → Prop} {s : σ}

/-- The postcondition of `p` in `p >>= f`: carry on with `f`, or pass the exception. -/
def andThen (C : Contract σ ε κ) (f : α → Prog σ ε κ β) (Q : Except ε β → σ → Prop) :
    Except ε α → σ → Prop
  | .ok a, s => wp C (f a) Q s
  | .error e, s => Q (.error e) s

/-- The postcondition of `p` in `tryCatch p h`. -/
def orElse (C : Contract σ ε κ) (h : ε → Prog σ ε κ α) (Q : Except ε α → σ → Prop) :
    Except ε α → σ → Prop
  | .ok a, s => Q (.ok a) s
  | .error e, s => wp C (h e) Q s

@[simp] theorem andThen_ok (f : α → Prog σ ε κ β) (Q : Except ε β → σ → Prop) (a : α) (s : σ) :
    andThen C f Q (.ok a) s = wp C (f a) Q s := rfl

@[simp] theorem andThen_error (f : α → Prog σ ε κ β) (Q : Except ε β → σ → Prop) (e : ε)
    (s : σ) : andThen C f Q (.error e) s = Q (.error e) s := rfl

@[simp] theorem orElse_ok (h : ε → Prog σ ε κ α) (a : α) :
    orElse C h Q (.ok a) s = Q (.ok a) s := rfl

@[simp] theorem orElse_error (h : ε → Prog σ ε κ α) (e : ε) :
    orElse C h Q (.error e) s = wp C (h e) Q s := rfl

@[simp] theorem wp_pure (a : α) : wp C (pure a) Q s ↔ Q (.ok a) s := Iff.rfl

@[simp] theorem wp_throw (e : ε) (Q : Except ε α → σ → Prop) :
    wp C (throw e : Prog σ ε κ α) Q s ↔ Q (.error e) s := Iff.rfl

@[simp] theorem wp_get (Q : Except ε σ → σ → Prop) : wp C MonadState.get Q s ↔ Q (.ok s) s :=
  Iff.rfl

@[simp] theorem wp_set (t : σ) (Q : Except ε PUnit → σ → Prop) :
    wp C (set t) Q s ↔ Q (.ok ⟨⟩) t := Iff.rfl

@[simp] theorem wp_modify (f : σ → σ) (Q : Except ε PUnit → σ → Prop) :
    wp C (modify f) Q s ↔ Q (.ok ⟨⟩) (f s) := Iff.rfl

@[simp] theorem wp_liftM (x : Except ε α) :
    wp C (liftM x : Prog σ ε κ α) Q s ↔ Q x s := by
  cases x <;> rfl

/-- The rule for sequencing. -/
@[simp] theorem wp_bind (p : Prog σ ε κ α) (f : α → Prog σ ε κ β)
    (Q : Except ε β → σ → Prop) : wp C (p >>= f) Q s ↔ wp C p (andThen C f Q) s := by
  change wp C (p.bind f) Q s ↔ _
  induction p generalizing s with
  | ret a => rfl
  | raise e => rfl
  | read k ih => exact ih s
  | write t k ih => exact ih
  | call c k ih =>
    simp only [bind, wp]
    exact and_congr_right fun _ => forall_congr' fun o => forall_congr' fun t =>
      imp_congr_right fun _ => imp_congr_right fun _ => imp_congr_right fun _ => ih o

/-- The rule for `try` and `catch`. -/
@[simp] theorem wp_tryCatch (p : Prog σ ε κ α) (h : ε → Prog σ ε κ α) :
    wp C (MonadExcept.tryCatch p h) Q s ↔ wp C p (orElse C h Q) s := by
  change wp C (p.tryCatch h) Q s ↔ _
  induction p generalizing s with
  | ret a => rfl
  | raise e => rfl
  | read k ih => exact ih s
  | write t k ih => exact ih
  | call c k ih =>
    simp only [tryCatch, wp]
    exact and_congr_right fun _ => forall_congr' fun o => forall_congr' fun t =>
      imp_congr_right fun _ => imp_congr_right fun _ => imp_congr_right fun _ => ih o

/-- The rule for a call out: the invariant is handed over, and the rest holds from every state
that the environment may leave behind, whether it returns or throws. -/
@[simp] theorem wp_callOut (c : κ) (Q : Except ε Unit → σ → Prop) :
    wp C (callOut c) Q s ↔ C.inv s ∧ ∀ t, C.rely s t → C.inv t →
      (C.ends c none → Q (.ok ()) t) ∧ ∀ e, C.ends c (some e) → Q (.error e) t := by
  refine and_congr_right fun _ => ?_
  constructor
  · intro h t hr hi
    exact ⟨fun hn => h none t hn hr hi, fun e he => h (some e) t he hr hi⟩
  · intro h o t ho hr hi
    cases o with
    | none => exact (h t hr hi).1 ho
    | some e => exact (h t hr hi).2 e ho

/-- A call under a contract where calls return. -/
theorem wp_callOut_of_returns (hC : C.Returns) (c : κ) {Q : Except ε Unit → σ → Prop}
    (hs : C.inv s) (h : ∀ t, C.rely s t → C.inv t → Q (.ok ()) t) : wp C (callOut c) Q s := by
  refine (wp_callOut c Q).mpr ⟨hs, fun t hr ht => ⟨fun _ => h t hr ht, ?_⟩⟩
  intro e he
  cases hC he

/-- A weaker postcondition has a weaker precondition. -/
theorem wp_mono {p : Prog σ ε κ α} {Q Q' : Except ε α → σ → Prop}
    (h : ∀ r t, Q r t → Q' r t) (hp : wp C p Q s) : wp C p Q' s := by
  induction p generalizing s with
  | ret a => exact h _ _ hp
  | raise e => exact h _ _ hp
  | read k ih => exact ih s hp
  | write t k ih => exact ih hp
  | call c k ih => exact ⟨hp.1, fun o t ho hr hi => ih o (hp.2 o t ho hr hi)⟩

/-- **Conjunction.**  A program that keeps two contracts keeps both at once. -/
theorem wp_and {D : Contract σ ε κ} {p : Prog σ ε κ α} {Q Q' : Except ε α → σ → Prop}
    (hp : wp C p Q s) (hp' : wp D p Q' s) :
    wp (C.and D) p (fun r t => Q r t ∧ Q' r t) s := by
  induction p generalizing s with
  | ret a => exact ⟨hp, hp'⟩
  | raise e => exact ⟨hp, hp'⟩
  | read k ih => exact ih s hp hp'
  | write t k ih => exact ih hp hp'
  | call c k ih =>
    refine ⟨⟨hp.1, hp'.1⟩, fun o t ho hr hi => ?_⟩
    exact ih o (hp.2 o t ho.1 hr.1 hi.1) (hp'.2 o t ho.2 hr.2 hi.2)

/-- **The loop rule.**  `J b` holds before the elements `b` that remain; an element
that raises ends the loop. -/
theorem wp_forEach {f : β → Prog σ ε κ Unit} {Q : Except ε Unit → σ → Prop}
    (J : List β → σ → Prop)
    (hstep : ∀ b bs t, J (b :: bs) t →
      wp C (f b) (fun r u => match r with | .ok _ => J bs u | .error e => Q (.error e) u) t)
    (hend : ∀ t, J [] t → Q (.ok ()) t) {bs : List β} (hs : J bs s) :
    wp C (forEach f bs) Q s := by
  induction bs generalizing s with
  | nil => exact hend s hs
  | cons b bs ih =>
    rw [forEach, wp_bind]
    refine wp_mono (fun r u hu => ?_) (hstep b bs s hs)
    cases r with
    | ok _ => exact ih hu
    | error e => exact hu

/-- **The loop rule for a container that the body may change.**  The body keeps `J`,
or changes the container and leaves `K`, under which any elements may follow. -/
theorem wp_walk {size : σ → ℕ} {stale : List β → List β} {f : β → Prog σ ε κ Unit}
    {Q : Except ε Unit → σ → Prop} (J : List β → σ → Prop) (K : σ → Prop)
    (hstep : ∀ b bs t, J (b :: bs) t →
      wp C (f b) (fun r u => match r with
        | .ok _ => if size u = size t then J bs u else K u
        | .error e => Q (.error e) u) t)
    (hend : ∀ t, J [] t → Q (.ok ()) t)
    (hstale : ∀ bs t, K t → wp C (forEach f (stale bs)) Q t)
    {bs : List β} (hs : J bs s) : wp C (walk size stale f bs) Q s := by
  induction bs generalizing s with
  | nil => exact hend s hs
  | cons b bs ih =>
    rw [walk, wp_bind, wp_get, andThen_ok, wp_bind]
    refine wp_mono (fun r u hu => ?_) (hstep b bs s hs)
    cases r with
    | error e => exact hu
    | ok _ =>
      rw [andThen_ok, wp_bind, wp_get, andThen_ok]
      dsimp only at hu
      split_ifs at hu ⊢
      · exact ih hu
      · exact hstale bs u hu

/-- The contract under which every call returns at once and changes nothing. -/
def silent (σ ε κ : Type) : Contract σ ε κ where
  inv _ := True
  idle _ := True
  rely s t := s = t
  ends _ o := o = none
  inv_of_idle _ := trivial
  refl _ := rfl
  trans := Eq.trans
  idle_of_rely _ _ _ := trivial

theorem silent_returns : (silent σ ε κ).Returns := fun h => h

/-- Under the silent contract a program is its `exec`. -/
theorem wp_silent_iff (p : Prog σ ε κ α) (Q : Except ε α → σ → Prop) (s : σ) :
    wp (silent σ ε κ) p Q s ↔ Q (p.exec s).1 (p.exec s).2 := by
  induction p generalizing s with
  | ret a => rfl
  | raise e => rfl
  | read k ih => exact ih s s
  | write t k ih => exact ih t
  | call c k ih =>
    constructor
    · rintro ⟨-, h⟩
      exact (ih none s).mp (h none s rfl rfl trivial)
    · intro h
      refine ⟨trivial, ?_⟩
      rintro o t rfl rfl -
      exact (ih none s).mpr h

/-- A postcondition that fixes result and state determines the execution. -/
theorem exec_eq_of_wp {p : Prog σ ε κ α} {s t : σ} {r : Except ε α}
    (h : wp (silent σ ε κ) p (fun r' t' => r' = r ∧ t' = t) s) : p.exec s = (r, t) := by
  have hend := (wp_silent_iff _ _ _).mp h
  exact Prod.ext hend.1 hend.2

/-- Programs that have the same postconditions have the same run. -/
theorem exec_congr {p q : Prog σ ε κ α} {s : σ}
    (h : ∀ Q, wp (silent σ ε κ) p Q s ↔ wp (silent σ ε κ) q Q s) : p.exec s = q.exec s := by
  apply exec_eq_of_wp
  rw [h, wp_silent_iff]
  exact ⟨rfl, rfl⟩

/-- A run whose calls return at once is one of those a contract speaks of. -/
theorem exec_of_wp {C : Contract σ ε κ} (hC : ∀ c, C.ends c none) {p : Prog σ ε κ α} {s : σ}
    {Q : Except ε α → σ → Prop} (h : p.wp C Q s) : Q (p.exec s).1 (p.exec s).2 := by
  induction p generalizing s with
  | ret a => exact h
  | raise e => exact h
  | read k ih => exact ih s h
  | write t k ih => exact ih h
  | call c k ih => exact ih none (h.2 none s (hC c) (C.refl s) h.1)

/-! ## Runs whose calls end as given -/

/-- What a call gives the program that made it. -/
def ended : Option ε → Except ε Unit
  | none => .ok ()
  | some e => .error e

/-- The run of a program whose calls change nothing and end as `ends` says. -/
def execWith (ends : κ → Option ε) : Prog σ ε κ α → σ → Except ε α × σ
  | .ret a, s => (.ok a, s)
  | .raise e, s => (.error e, s)
  | .read k, s => (k s).execWith ends s
  | .write s k, _ => k.execWith ends s
  | .call c k, s => (k (ends c)).execWith ends s

theorem execWith_none (p : Prog σ ε κ α) (s : σ) : p.execWith (fun _ => none) s = p.exec s := by
  induction p generalizing s with
  | ret a => rfl
  | raise e => rfl
  | read k ih => exact ih s s
  | write t k ih => exact ih t
  | call c k ih => exact ih none s

/-- The contract under which every call changes nothing and ends as `ends` says. -/
def answering (σ : Type) {ε κ : Type} (ends : κ → Option ε) : Contract σ ε κ where
  inv _ := True
  idle _ := True
  rely s t := s = t
  ends c o := o = ends c
  inv_of_idle _ := trivial
  refl _ := rfl
  trans := Eq.trans
  idle_of_rely _ _ _ := trivial

/-- Under that contract a program is its `execWith`. -/
theorem wp_answering_iff (ends : κ → Option ε) (p : Prog σ ε κ α) (Q : Except ε α → σ → Prop)
    (s : σ) : wp (answering σ ends) p Q s ↔ Q (p.execWith ends s).1 (p.execWith ends s).2 := by
  induction p generalizing s with
  | ret a => rfl
  | raise e => rfl
  | read k ih => exact ih s s
  | write t k ih => exact ih t
  | call c k ih =>
    constructor
    · rintro ⟨-, h⟩
      exact (ih (ends c) s).mp (h (ends c) s rfl rfl trivial)
    · intro h
      refine ⟨trivial, ?_⟩
      rintro o t rfl rfl -
      exact (ih (ends c) s).mpr h

/-- The rule for a call out that changes nothing and ends as it is told. -/
@[simp] theorem wp_answering_callOut (ends : κ → Option ε) (c : κ) (Q : Except ε Unit → σ → Prop)
    (s : σ) : wp (answering σ ends) (callOut c) Q s ↔ Q (ended (ends c)) s := by
  rw [wp_answering_iff]
  cases h : ends c with
  | none => simp [callOut, execWith, h, ended]
  | some e => simp [callOut, execWith, h, ended]

/-! ## Invariants of every write -/

/-- The contract under which outside code keeps `P` and does otherwise as it likes. -/
def keeping (σ ε κ : Type) (P : σ → Prop) : Contract σ ε κ where
  inv := P
  idle := P
  rely _ _ := True
  ends _ _ := True
  inv_of_idle h := h
  refl _ := trivial
  trans _ _ := trivial
  idle_of_rely _ _ h := h

/-- Wherever `p` hands control out or ends, `P` holds. -/
def Keeps (P : σ → Prop) (p : Prog σ ε κ α) : Prop :=
  ∀ s, P s → wp (keeping σ ε κ P) p (fun _ t => P t) s

namespace Keeps

variable {P : σ → Prop} {p : Prog σ ε κ α}

theorem pure (a : α) : Keeps P (pure a : Prog σ ε κ α) := fun _ h => h

theorem throw (e : ε) : Keeps P (throw e : Prog σ ε κ α) := fun _ h => h

theorem liftM (x : Except ε α) : Keeps P (liftM x : Prog σ ε κ α) := fun _ h =>
  (wp_liftM x).mpr h

theorem set {t : σ} (h : P t) : Keeps P (set t : Prog σ ε κ PUnit) := fun _ _ => h

theorem modify {f : σ → σ} (h : ∀ s, P s → P (f s)) : Keeps P (modify f : Prog σ ε κ PUnit) := h

theorem callOut (c : κ) : Keeps P (callOut c : Prog σ ε κ Unit) := fun _ h =>
  (wp_callOut c _).mpr ⟨h, fun _ _ ht => ⟨fun _ => ht, fun _ _ => ht⟩⟩

theorem bind (hp : Keeps P p) {f : α → Prog σ ε κ β} (hf : ∀ a, Keeps P (f a)) :
    Keeps P (p >>= f) := by
  intro s hs
  rw [wp_bind]
  refine wp_mono (fun r t ht => ?_) (hp s hs)
  cases r with
  | ok a => exact hf a t ht
  | error e => exact ht

/-- What is read satisfies `P`. -/
theorem get_bind {f : σ → Prog σ ε κ β} (hf : ∀ s, P s → Keeps P (f s)) :
    Keeps P (MonadState.get >>= f) := fun s hs => hf s hs s hs

theorem tryCatch (hp : Keeps P p) {h : ε → Prog σ ε κ α} (hh : ∀ e, Keeps P (h e)) :
    Keeps P (MonadExcept.tryCatch p h) := by
  intro s hs
  rw [wp_tryCatch]
  refine wp_mono (fun r t ht => ?_) (hp s hs)
  cases r with
  | ok a => exact ht
  | error e => exact hh e t ht

theorem forEach {f : β → Prog σ ε κ Unit} (hf : ∀ b, Keeps P (f b)) (bs : List β) :
    Keeps P (forEach f bs) := by
  induction bs with
  | nil => exact .pure ()
  | cons b bs ih => exact .bind (hf b) fun _ => ih

/-- A walk over a container that may grow meanwhile, whose body keeps the property. -/
theorem walk {f : β → Prog σ ε κ Unit} (hf : ∀ b, Keeps P (f b)) (size : σ → ℕ)
    (stale : List β → List β) (bs : List β) : Keeps P (walk size stale f bs) := by
  induction bs with
  | nil => exact .pure ()
  | cons b bs ih =>
    refine .get_bind fun _ _ => .bind (hf b) fun _ => .get_bind fun _ _ => ?_
    split
    · exact ih
    · exact .forEach hf _

end Keeps

/-! ## Programs that do what the outside may do -/

/-- Started in `s`, `p` ends where the invariant holds and has done no more than a period of
outside control may do. -/
def Guarantees (C : Contract σ ε κ) (p : Prog σ ε κ α) (s : σ) : Prop :=
  p.wp C (fun _ t => C.inv t ∧ C.rely s t) s

namespace Guarantees

variable {C : Contract σ ε κ} {p : Prog σ ε κ α} {s : σ}

theorem pure (h : C.inv s) (a : α) : Guarantees C (pure a : Prog σ ε κ α) s := ⟨h, C.refl s⟩

theorem throw (h : C.inv s) (e : ε) : Guarantees C (throw e : Prog σ ε κ α) s := ⟨h, C.refl s⟩

/-- What is guaranteed from a state that `s` may turn into is guaranteed from `s`. -/
theorem mono {t : σ} (hr : C.rely s t) (h : Guarantees C p t) :
    p.wp C (fun _ u => C.inv u ∧ C.rely s u) t :=
  wp_mono (fun _ _ hu => ⟨hu.1, C.trans hr hu.2⟩) h

/-- A change that is itself allowed, followed by `q`. -/
theorem modify_bind {f : σ → σ} {q : PUnit → Prog σ ε κ β} (hr : C.rely s (f s))
    (hq : Guarantees C (q ⟨⟩) (f s)) : Guarantees C (modify f >>= q) s := by
  have h := hq.mono hr
  exact h

theorem modify {f : σ → σ} (h : C.inv (f s)) (hr : C.rely s (f s)) :
    Guarantees C (modify f : Prog σ ε κ PUnit) s := ⟨h, hr⟩

theorem callOut (h : C.inv s) (c : κ) : Guarantees C (callOut c : Prog σ ε κ Unit) s :=
  (wp_callOut c _).mpr ⟨h, fun _ hr ht => ⟨fun _ => ⟨ht, hr⟩, fun _ _ => ⟨ht, hr⟩⟩⟩

theorem bind (hp : Guarantees C p s) {f : α → Prog σ ε κ β}
    (hf : ∀ a t, C.inv t → C.rely s t → Guarantees C (f a) t) : Guarantees C (p >>= f) s := by
  rw [Guarantees, wp_bind]
  refine wp_mono (fun r t ht => ?_) hp
  cases r with
  | ok a => exact (hf a t ht.1 ht.2).mono ht.2
  | error e => exact ht

theorem tryCatch (hp : Guarantees C p s) {h : ε → Prog σ ε κ α}
    (hh : ∀ e t, C.inv t → C.rely s t → Guarantees C (h e) t) :
    Guarantees C (MonadExcept.tryCatch p h) s := by
  rw [Guarantees, wp_tryCatch]
  refine wp_mono (fun r t ht => ?_) hp
  cases r with
  | ok a => exact ht
  | error e => exact (hh e t ht.1 ht.2).mono ht.2

end Guarantees

/-- A loop whose rounds keep `J`, whichever elements they get, keeps it to its end. -/
theorem wp_walk_of_inv {C : Contract σ ε κ} {J : σ → Prop} {Q : Except ε Unit → σ → Prop}
    {size : σ → ℕ} {stale : List β → List β} {f : β → Prog σ ε κ Unit}
    (hf : ∀ b t, J t →
      (f b).wp C (fun r u => match r with | .ok _ => J u | .error e => Q (.error e) u) t)
    (hend : ∀ t, J t → Q (.ok ()) t) {bs : List β} {s : σ} (hs : J s) :
    (walk size stale f bs).wp C Q s := by
  refine wp_walk (fun _ t => J t) J ?_ hend ?_ hs
  · intro b _ t ht
    refine wp_mono (fun r u hu => ?_) (hf b t ht)
    cases r with
    | ok _ =>
      dsimp only
      rwa [ite_self]
    | error e => exact hu
  · intro rest t ht
    exact wp_forEach (fun _ t => J t) (fun b _ t ht => hf b t ht) hend ht

end Prog

/-! ## Systems -/

/-- The programs of a system: `entry i` may be started by outside code whenever it
has control, `event v` by the event loop when no program waits and `enabled v`. -/
structure System (σ ε κ ι ν : Type) where
  entry : ι → Prog σ ε κ Unit
  event : ν → Prog σ ε κ Unit
  enabled : ν → σ → Bool

namespace System

variable {σ ε κ ι ν : Type}

/-- A program that waits for the call `c` to end. -/
abbrev Frame (σ ε κ : Type) := κ × (Option ε → Prog σ ε κ Unit)

/-- A state together with the programs that wait, the innermost first. -/
structure Config (σ ε κ : Type) where
  st : σ
  frames : List (Frame σ ε κ)

/-- What the outside may do: start a program, end the innermost call, run an event. -/
inductive Act (ε ι ν : Type) : Type
  | enter (i : ι)
  | resume (o : Option ε)
  | event (v : ν)

/-- Give control to `p` with the programs `fs` waiting. -/
def start (p : Prog σ ε κ Unit) (s : σ) (fs : List (Frame σ ε κ)) : Config σ ε κ :=
  match p.advance s with
  | .done _ t => ⟨t, fs⟩
  | .calling c k t => ⟨t, (c, k) :: fs⟩

@[simp] theorem start_modify (f : σ → σ) (s : σ) (fs : List (Frame σ ε κ)) :
    start (modify f : Prog σ ε κ PUnit) s fs = ⟨f s, fs⟩ := rfl

@[simp] theorem start_get_bind (f : σ → Prog σ ε κ Unit) (s : σ) (fs : List (Frame σ ε κ)) :
    start (MonadState.get >>= f) s fs = start (f s) s fs := rfl

@[simp] theorem start_modify_bind (f : σ → σ) (p : PUnit → Prog σ ε κ Unit) (s : σ)
    (fs : List (Frame σ ε κ)) : start (modify f >>= p) s fs = start (p ⟨⟩) (f s) fs := rfl

@[simp] theorem start_ok_bind {α : Type} (a : α) (f : α → Prog σ ε κ Unit) (s : σ)
    (fs : List (Frame σ ε κ)) :
    start ((liftM (Except.ok a : Except ε α) : Prog σ ε κ α) >>= f) s fs = start (f a) s fs := rfl

/-- One transition; `none` where the outside cannot do that. -/
def step (S : System σ ε κ ι ν) (c : Config σ ε κ) : Act ε ι ν → Option (Config σ ε κ)
  | .enter i => some (start (S.entry i) c.st c.frames)
  | .resume o =>
    match c.frames with
    | [] => none
    | f :: fs => some (start (f.2 o) c.st fs)
  | .event v =>
    match c.frames with
    | [] => if S.enabled v c.st then some (start (S.event v) c.st []) else none
    | _ :: _ => none

/-- The configuration after a list of transitions. -/
def run (S : System σ ε κ ι ν) (c : Config σ ε κ) : List (Act ε ι ν) → Option (Config σ ε κ)
  | [] => some c
  | a :: as => (S.step c a).bind fun d => S.run d as

/-- `d` is reachable from `c` by transitions that `ok` allows. -/
inductive Reaches (S : System σ ε κ ι ν) (ok : Config σ ε κ → Act ε ι ν → Prop)
    (c : Config σ ε κ) : Config σ ε κ → Prop
  | refl : Reaches S ok c c
  | step {d e : Config σ ε κ} {a : Act ε ι ν} (h : Reaches S ok c d) (ha : ok d a)
      (hs : S.step d a = some e) : Reaches S ok c e

variable {S : System σ ε κ ι ν} {ok : Config σ ε κ → Act ε ι ν → Prop} {c d e : Config σ ε κ}

/-- A call that ends is the innermost one. -/
theorem step_resume {o : Option ε} (h : S.step d (.resume o) = some e) :
    ∃ f fs, d.frames = f :: fs ∧ e = start (f.2 o) d.st fs := by
  simp only [step] at h
  split at h
  · cases h
  · next f fs hframes =>
    cases h
    exact ⟨f, fs, hframes, rfl⟩

/-- An event runs when no program waits and it is enabled. -/
theorem step_event {v : ν} (h : S.step d (.event v) = some e) :
    d.frames = [] ∧ S.enabled v d.st = true ∧ e = start (S.event v) d.st [] := by
  simp only [step] at h
  split at h
  · next hframes =>
    split at h
    · next henabled =>
      cases h
      exact ⟨hframes, henabled, rfl⟩
    · cases h
  · cases h

theorem Reaches.trans (h : S.Reaches ok c d) (h' : S.Reaches ok d e) : S.Reaches ok c e := by
  induction h' with
  | refl => exact h
  | step _ ha hs ih => exact ih.step ha hs

/-- What is reached under a condition is reached under a weaker one. -/
theorem Reaches.mono {ok' : Config σ ε κ → Act ε ι ν → Prop} (hok : ∀ d a, ok d a → ok' d a)
    (h : S.Reaches ok c d) : S.Reaches ok' c d := by
  induction h with
  | refl => exact .refl
  | step _ ha hs ih => exact ih.step (hok _ _ ha) hs

/-- A list of transitions, each allowed, reaches where it ends. -/
theorem reaches_of_run {as : List (Act ε ι ν)} (hok : ∀ d, ∀ a ∈ as, ok d a)
    (h : S.run c as = some d) : S.Reaches ok c d := by
  induction as generalizing c with
  | nil => cases h; exact .refl
  | cons a as ih =>
    simp only [run, Option.bind_eq_some_iff] at h
    obtain ⟨d', h1, h2⟩ := h
    exact (Reaches.refl.step (hok c a (by simp)) h1).trans
      (ih (fun d a ha => hok d a (by simp [ha])) h2)

/-- A program whose calls are ended one after the other, without an exception, goes on to what
`exec` says. -/
theorem reaches_exec (hok : ∀ d, ok d (.resume none)) (p : Prog σ ε κ Unit) (s : σ)
    (fs : List (Frame σ ε κ)) : S.Reaches ok (start p s fs) ⟨(p.exec s).2, fs⟩ := by
  induction p generalizing s with
  | ret a => exact .refl
  | raise e => exact .refl
  | read k ih => exact ih s s
  | write t k ih => exact ih t
  | call c k ih =>
    have hstep : S.step (start (.call c k) s fs) (.resume none) = some (start (k none) s fs) := rfl
    exact (Reaches.refl.step (hok _) hstep).trans (ih none s)

/-- All calls that are waited for can be ended. -/
theorem exists_idle (hok : ∀ d, ok d (.resume none)) (d : Config σ ε κ) :
    ∃ t, S.Reaches ok d ⟨t, []⟩ := by
  obtain ⟨s, fs⟩ := d
  induction fs generalizing s with
  | nil => exact ⟨s, .refl⟩
  | cons f fs ih =>
    have hstep : S.step ⟨s, f :: fs⟩ (.resume none) = some (start (f.2 none) s fs) := rfl
    obtain ⟨t, ht⟩ := ih ((f.2 none).exec s).2
    exact ⟨t, ((Reaches.refl.step (hok _) hstep).trans (reaches_exec hok _ s fs)).trans ht⟩

/-- Every waiting program keeps the contract, down to the bottom of the stack. -/
def Good (C : Contract σ ε κ) : List (Frame σ ε κ) → σ → Prop
  | [], s => C.idle s
  | f :: fs, s => C.inv s ∧ ∀ o t, C.ends f.1 o → C.rely s t → C.inv t →
      (f.2 o).wp C (fun _ u => Good C fs u) t

variable {C : Contract σ ε κ} {s t : σ} {fs : List (Frame σ ε κ)}

theorem Good.inv (h : Good C fs s) : C.inv s := by
  cases fs with
  | nil => exact C.inv_of_idle h
  | cons f fs => exact h.1

/-- What the outside may do between two moments of control keeps the stack good. -/
theorem Good.rely (h : Good C fs s) (hr : C.rely s t) (ht : C.inv t) : Good C fs t := by
  cases fs with
  | nil => exact C.idle_of_rely h hr ht
  | cons f fs => exact ⟨ht, fun o u ho hu hi => h.2 o u ho (C.trans hr hu) hi⟩

/-- A program that ends with a good stack is paused, if it calls out, on one. -/
theorem good_start {p : Prog σ ε κ Unit} (h : p.wp C (fun _ t => Good C fs t) s) :
    Good C (start p s fs).frames (start p s fs).st := by
  induction p generalizing s with
  | ret a => exact h
  | raise e => exact h
  | read k ih => exact ih s h
  | write t k ih => exact ih h
  | call c k _ => exact h

/-- **Contracts hold in every reachable configuration.**  If the allowed entries keep
the invariant and do no more than the outside may do, the allowed events keep the
idle invariant, and allowed calls end as agreed, then every configuration reachable
from a good one is good. -/
theorem good_of_reaches
    (hentry : ∀ d i, ok d (.enter i) → C.inv d.st →
      (S.entry i).wp C (fun _ t => C.inv t ∧ C.rely d.st t) d.st)
    (hevent : ∀ d v, ok d (.event v) → S.enabled v d.st = true → C.idle d.st →
      (S.event v).wp C (fun _ t => C.idle t) d.st)
    (hends : ∀ d f fs o, d.frames = f :: fs → ok d (.resume o) → C.ends f.1 o)
    (hc : Good C c.frames c.st) (h : S.Reaches ok c d) : Good C d.frames d.st := by
  induction h with
  | refl => exact hc
  | @step d e a _ ha hs ih =>
    cases a with
    | enter i =>
      cases hs
      refine good_start (Prog.wp_mono (fun _ t ht => ?_) (hentry d i ha ih.inv))
      exact ih.rely ht.2 ht.1
    | resume o =>
      obtain ⟨f, fs, hf, rfl⟩ := step_resume hs
      rw [hf] at ih
      exact good_start (ih.2 o d.st (hends d f fs o hf ha) (C.refl _) ih.1)
    | event v =>
      obtain ⟨hf, hv, rfl⟩ := step_event hs
      rw [hf] at ih
      exact good_start (hevent d v ha hv ih)

/-- What every program keeps holds in every reachable configuration. -/
theorem keeps_of_reaches {P : σ → Prop} (hentry : ∀ i, (S.entry i).Keeps P)
    (hevent : ∀ v, (S.event v).Keeps P) (hc : Good (Prog.keeping σ ε κ P) c.frames c.st)
    (h : S.Reaches ok c d) : Good (Prog.keeping σ ε κ P) d.frames d.st := by
  refine good_of_reaches ?_ ?_ (fun _ _ _ _ _ _ => trivial) hc h
  · intro e i _ he
    exact Prog.wp_mono (fun _ t ht => ⟨ht, trivial⟩) (hentry i e.st he)
  · intro e v _ _ he
    exact hevent v e.st he

/-- **What only events without calls change** is as it is for every program that waits. -/
theorem good_view_of_reaches {α : Type} (view : σ → α)
    (hentry : ∀ i a, (S.entry i).Keeps (view · = a))
    (hevent : ∀ v, (∀ a, (S.event v).Keeps (view · = a)) ∨ ∃ f, S.event v = modify f)
    (hc : c.frames = []) (h : S.Reaches ok c d) :
    Good (Prog.keeping σ ε κ (view · = view d.st)) d.frames d.st := by
  have hsame : ∀ {d e : Config σ ε κ},
      Good (Prog.keeping σ ε κ (view · = view d.st)) e.frames e.st →
        Good (Prog.keeping σ ε κ (view · = view e.st)) e.frames e.st := by
    intro d e he
    have hview : view e.st = view d.st := he.inv
    rwa [← hview] at he
  induction h with
  | refl =>
    rw [hc]
    rfl
  | @step d e a _ _ hs ih =>
    cases a with
    | enter i =>
      cases hs
      refine hsame (d := d) (good_start (Prog.wp_mono (fun _ t ht => ?_) (hentry i _ d.st rfl)))
      exact ih.rely trivial ht
    | resume o =>
      obtain ⟨f, fs, hf, rfl⟩ := step_resume hs
      rw [hf] at ih
      exact hsame (d := d) (good_start (ih.2 o d.st trivial trivial rfl))
    | event v =>
      obtain ⟨-, -, rfl⟩ := step_event hs
      rcases hevent v with hkeeps | ⟨f, hmodify⟩
      · exact hsame (d := d) (good_start (hkeeps _ d.st rfl))
      · rw [hmodify, start_modify]
        rfl

/-- The calls that are waited for can be ended so that the contract holds at the end. -/
theorem exists_idle_of_good (hok : ∀ d, ok d (.resume none)) (hends : ∀ c, C.ends c none)
    (h : Good C d.frames d.st) : ∃ t, S.Reaches ok d ⟨t, []⟩ ∧ C.idle t := by
  have hexists : ∃ t, S.Reaches (fun _ a => .resume none = a) d ⟨t, []⟩ := by
    apply exists_idle
    intro e
    rfl
  obtain ⟨t, ht⟩ := hexists
  refine ⟨t, ht.mono ?_, ?_⟩
  · rintro e a rfl
    exact hok e
  · refine good_of_reaches (c := d) (d := ⟨t, []⟩) ?_ ?_ ?_ h ht
    · rintro e i ⟨⟩
    · rintro e v ⟨⟩
    · rintro e f fs o - ⟨⟩
      exact hends f.1

end System
