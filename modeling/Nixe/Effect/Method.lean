import Mathlib

/-!
# Methods over a mutable receiver

A method of a stateful object runs on the object's state and ends in one of three ways: it
returns a value, it returns an error, or it panics. The first two leave a state behind, and the
state left behind by an error is kept rather than rolled back: whether a failing call disturbs
its receiver is a property to be proved of a method, not a feature of the monad.

## Weakest preconditions

A postcondition (`Post`) speaks about all three endings at once. `Method.wp` evaluates one
against a method, and the `wp_*` rules push it through the method's statements, so that a
specification of a method is proved by rewriting with the rules and splitting on the branches
that the source itself takes.
-/

namespace Nixe

/-- How a method call ends. -/
inductive Outcome (ε σ α : Type) where
  /-- The call returned `value`, leaving `state`. -/
  | ok (value : α) (state : σ)
  /-- The call returned the error `error`, leaving `state`. -/
  | err (error : ε) (state : σ)
  /-- The call panicked. -/
  | panic (message : String)
deriving DecidableEq, Repr

/-- A method with errors `ε` over a receiver of type `σ`. -/
def Method (ε σ α : Type) : Type := σ → Outcome ε σ α

namespace Method

variable {ε σ α β : Type}

instance : Monad (Method ε σ) where
  pure a := fun s ↦ .ok a s
  bind m f := fun s ↦
    match m s with
    | .ok a t => f a t
    | .err e t => .err e t
    | .panic msg => .panic msg

/-- Return early with the error `e`. -/
def fail (e : ε) : Method ε σ α := fun s ↦ .err e s

/-- `if c { return Err(e) }`. -/
def failIf (c : Prop) [Decidable c] (e : ε) : Method ε σ Unit := if c then fail e else pure ()

/-- `if let Some(a) = o { f(a) }`. -/
def ifSome (o : Option α) (f : α → Method ε σ Unit) : Method ε σ Unit :=
  match o with
  | some a => f a
  | none => pure ()

/-- Panic with `message`. -/
def abort (message : String) : Method ε σ α := fun _ ↦ .panic message

/-- Read a projection of the receiver. -/
def read (f : σ → α) : Method ε σ α := fun s ↦ .ok (f s) s

/-- Update the receiver in place. -/
def update (f : σ → σ) : Method ε σ Unit := fun s ↦ .ok () (f s)

/-- `Option::expect`: panic with `message` on `none`. -/
def expect (o : Option α) (message : String) : Method ε σ α :=
  match o with
  | some a => pure a
  | none => abort message

/-- `debug_assert!`. -/
def assert (b : Bool) (message : String) : Method ε σ Unit :=
  if b then pure () else abort message

/-- `Option::ok_or(e)?`. -/
def okOr (o : Option α) (e : ε) : Method ε σ α :=
  match o with
  | some a => pure a
  | none => fail e

/-- Propagate the error of a pure computation, as `?` does. -/
def lift (r : Except ε α) : Method ε σ α :=
  match r with
  | .ok a => pure a
  | .error e => fail e

/-- `map_err`. -/
def mapErr {δ : Type} (f : δ → ε) (m : Method δ σ α) : Method ε σ α := fun s ↦
  match m s with
  | .ok a t => .ok a t
  | .err e t => .err (f e) t
  | .panic msg => .panic msg

/-- Run `m`, and update the receiver with `f` if it returns an error. -/
def onErr (f : σ → σ) (m : Method ε σ α) : Method ε σ α := fun s ↦
  match m s with
  | .ok a t => .ok a t
  | .err e t => .err e (f t)
  | .panic msg => .panic msg

/-- `Result::expect`: panic with `message` on an error. -/
def expectOk (message : String) (m : Method ε σ α) : Method ε σ α := fun s ↦
  match m s with
  | .ok a t => .ok a t
  | .err _ _ => .panic message
  | .panic msg => .panic msg

/-- `Result::unwrap_or(a)`. -/
def unwrapOr {δ : Type} (a : α) (m : Method δ σ α) : Method ε σ α := fun s ↦
  match m s with
  | .ok b t => .ok b t
  | .err _ t => .ok a t
  | .panic msg => .panic msg

/-- Call a method of a part of the receiver. -/
def focus {τ : Type} (part : σ → τ) (put : σ → τ → σ) (m : Method ε τ α) : Method ε σ α := fun s ↦
  match m (part s) with
  | .ok a t => .ok a (put s t)
  | .err e t => .err e (put s t)
  | .panic msg => .panic msg

/-- `for a in as { f(a)? }`. -/
def forEach (f : α → Method ε σ Unit) : List α → Method ε σ Unit
  | [] => pure ()
  | a :: as => do
    f a
    forEach f as

end Method

/-! ## Postconditions -/

/-- A condition on each of the three endings of a call. -/
structure Post (ε σ α : Type) where
  /-- What holds of the value returned and the state left behind. -/
  ok : α → σ → Prop
  /-- What holds of the error returned and the state left behind. -/
  err : ε → σ → Prop
  /-- What holds if the call panics. -/
  panic : Prop

variable {ε σ α β : Type}

/-- The state satisfies `P`, whether a value or an error is returned. -/
abbrev Post.leaves (P : σ → Prop) : Post ε σ α := ⟨fun _ t ↦ P t, fun _ t ↦ P t, False⟩

/-- The ending `o` meets the postcondition `Q`. -/
def Outcome.Meets (o : Outcome ε σ α) (Q : Post ε σ α) : Prop :=
  match o with
  | .ok a t => Q.ok a t
  | .err e t => Q.err e t
  | .panic _ => Q.panic

namespace Method

/-- The weakest precondition of the method `m` for the postcondition `Q`. -/
def wp (m : Method ε σ α) (Q : Post ε σ α) (s : σ) : Prop := (m s).Meets Q

variable {Q : Post ε σ α} {s : σ}

@[simp] theorem wp_pure (a : α) : wp (pure a) Q s ↔ Q.ok a s := Iff.rfl

@[simp] theorem wp_fail (e : ε) : wp (fail e) Q s ↔ Q.err e s := Iff.rfl

@[simp] theorem wp_abort (msg : String) : wp (abort msg) Q s ↔ Q.panic := Iff.rfl

@[simp] theorem wp_read (f : σ → α) : wp (read f) Q s ↔ Q.ok (f s) s := Iff.rfl

@[simp] theorem wp_update {Q : Post ε σ Unit} (f : σ → σ) :
    wp (update f) Q s ↔ Q.ok () (f s) := Iff.rfl

/-- Sequencing: an error or a panic of the first statement is the ending of the whole. -/
@[simp] theorem wp_bind {Q : Post ε σ β} (m : Method ε σ α) (f : α → Method ε σ β) :
    wp (m >>= f) Q s ↔ wp m ⟨fun a t ↦ wp (f a) Q t, Q.err, Q.panic⟩ s := by
  change Outcome.Meets (match m s with
    | .ok a t => f a t
    | .err e t => .err e t
    | .panic msg => .panic msg) Q ↔ Outcome.Meets (m s) _
  cases m s <;> rfl

@[simp] theorem wp_ite {c : Prop} [Decidable c] (m n : Method ε σ α) :
    wp (if c then m else n) Q s ↔ (c → wp m Q s) ∧ (¬c → wp n Q s) := by
  split <;> simp [*]

@[simp] theorem wp_failIf {Q : Post ε σ Unit} (c : Prop) [Decidable c] (e : ε) :
    wp (failIf c e) Q s ↔ (c → Q.err e s) ∧ (¬c → Q.ok () s) := by
  simp [failIf]

@[simp] theorem wp_ifSome {Q : Post ε σ Unit} (o : Option α) (f : α → Method ε σ Unit) :
    wp (ifSome o f) Q s ↔ (∀ a, o = some a → wp (f a) Q s) ∧ (o = none → Q.ok () s) := by
  cases o <;> simp [ifSome]

@[simp] theorem wp_expect (o : Option α) (msg : String) :
    wp (expect o msg) Q s ↔ (∀ a, o = some a → Q.ok a s) ∧ (o = none → Q.panic) := by
  cases o <;> simp [expect]

@[simp] theorem wp_assert {Q : Post ε σ Unit} (b : Bool) (msg : String) :
    wp (assert b msg) Q s ↔ (b = true → Q.ok () s) ∧ (b = false → Q.panic) := by
  cases b <;> simp [assert]

@[simp] theorem wp_okOr (o : Option α) (e : ε) :
    wp (okOr o e) Q s ↔ (∀ a, o = some a → Q.ok a s) ∧ (o = none → Q.err e s) := by
  cases o <;> simp [okOr]

@[simp] theorem wp_lift (r : Except ε α) :
    wp (lift r) Q s ↔ (∀ a, r = .ok a → Q.ok a s) ∧ (∀ e, r = .error e → Q.err e s) := by
  cases r <;> simp [lift]

@[simp] theorem wp_mapErr {δ : Type} (f : δ → ε) (m : Method δ σ α) :
    wp (mapErr f m) Q s ↔ wp m ⟨Q.ok, fun e t ↦ Q.err (f e) t, Q.panic⟩ s := by
  rw [wp, wp, mapErr]
  cases m s <;> rfl

@[simp] theorem wp_onErr (f : σ → σ) (m : Method ε σ α) :
    wp (onErr f m) Q s ↔ wp m ⟨Q.ok, fun e t ↦ Q.err e (f t), Q.panic⟩ s := by
  rw [wp, wp, onErr]
  cases m s <;> rfl

@[simp] theorem wp_expectOk (message : String) (m : Method ε σ α) :
    wp (expectOk message m) Q s ↔ wp m ⟨Q.ok, fun _ _ ↦ Q.panic, Q.panic⟩ s := by
  rw [wp, wp, expectOk]
  cases m s <;> rfl

@[simp] theorem wp_unwrapOr {δ : Type} (a : α) (m : Method δ σ α) :
    wp (unwrapOr a m) Q s ↔ wp m ⟨Q.ok, fun _ t ↦ Q.ok a t, Q.panic⟩ s := by
  rw [wp, wp, unwrapOr]
  cases m s <;> rfl

@[simp] theorem wp_focus {τ : Type} (part : σ → τ) (put : σ → τ → σ) (m : Method ε τ α) :
    wp (focus part put m) Q s ↔
      wp m ⟨fun a t ↦ Q.ok a (put s t), fun e t ↦ Q.err e (put s t), Q.panic⟩ (part s) := by
  rw [wp, wp, focus]
  cases m (part s) <;> rfl

/-- The rules of the operations in one statement: `simp only [f, wp_rules]` computes the
precondition of the method `f`. Conditionals are left as they are. -/
theorem wp_rules :
    (∀ {α β : Type} {Q : Post ε σ β} (m : Method ε σ α) (f : α → Method ε σ β),
      wp (m >>= f) Q s ↔ wp m ⟨fun a t ↦ wp (f a) Q t, Q.err, Q.panic⟩ s) ∧
    (∀ {α : Type} {Q : Post ε σ α} (a : α), wp (pure a) Q s ↔ Q.ok a s) ∧
    (∀ {α : Type} {Q : Post ε σ α} (e : ε), wp (fail e) Q s ↔ Q.err e s) ∧
    (∀ {α : Type} {Q : Post ε σ α} (f : σ → α), wp (read f) Q s ↔ Q.ok (f s) s) ∧
    (∀ {Q : Post ε σ Unit} (f : σ → σ), wp (update f) Q s ↔ Q.ok () (f s)) ∧
    (∀ {Q : Post ε σ Unit} (c : Prop) [Decidable c] (e : ε),
      wp (failIf c e) Q s ↔ (c → Q.err e s) ∧ (¬c → Q.ok () s)) ∧
    (∀ {α : Type} {Q : Post ε σ α} (o : Option α) (e : ε),
      wp (okOr o e) Q s ↔ (∀ a, o = some a → Q.ok a s) ∧ (o = none → Q.err e s)) ∧
    (∀ {α : Type} {Q : Post ε σ α} (r : Except ε α),
      wp (lift r) Q s ↔ (∀ a, r = .ok a → Q.ok a s) ∧ (∀ e, r = .error e → Q.err e s)) ∧
    (∀ {α δ : Type} {Q : Post ε σ α} (f : δ → ε) (m : Method δ σ α),
      wp (mapErr f m) Q s ↔ wp m ⟨Q.ok, fun e t ↦ Q.err (f e) t, Q.panic⟩ s) :=
  ⟨wp_bind, wp_pure, wp_fail, wp_read, wp_update, wp_failIf, wp_okOr, wp_lift, wp_mapErr⟩

/-- The two cases of a lookup, when it is known what it finds. -/
theorem forall_some {a : α} {p : α → Prop} {q : Prop} :
    (∀ b, some a = some b → p b) ∧ (some a = none → q) ↔ p a := by
  simp

variable {m : Method ε σ α}

/-- Consequence: the rule by which a caller uses the specification of a callee. -/
theorem wp_mono {Q' : Post ε σ α} (h : wp m Q' s) (hok : ∀ a t, Q'.ok a t → Q.ok a t)
    (herr : ∀ e t, Q'.err e t → Q.err e t) (hpanic : Q'.panic → Q.panic) : wp m Q s := by
  rw [wp] at h ⊢
  cases hm : m s with
  | ok a t => rw [hm] at h; exact hok a t h
  | err e t => rw [hm] at h; exact herr e t h
  | panic msg => rw [hm] at h; exact hpanic h

/-- A conclusion that is plainly weaker: the same one, one from nothing or nothing at all. -/
class Weakens (p q : Prop) : Prop where
  imp : p → q

instance (p : Prop) : Weakens p p := ⟨id⟩

instance (q : Prop) : Weakens False q := ⟨False.elim⟩

instance (p : Prop) : Weakens p True := ⟨fun _ ↦ trivial⟩

theorem wp_of_wp {Q' : Post ε σ α} [Weakens Q'.panic Q.panic] (h : wp m Q' s)
    (hok : ∀ a t, Q'.ok a t → Q.ok a t) (herr : ∀ e t, Q'.err e t → Q.err e t) : wp m Q s :=
  wp_mono h hok herr Weakens.imp

/-- Only the answer is left to show. -/
theorem wp_of_ok {Q' : Post ε σ α} [∀ e t, Weakens (Q'.err e t) (Q.err e t)]
    [Weakens Q'.panic Q.panic] (h : wp m Q' s) (hok : ∀ a t, Q'.ok a t → Q.ok a t) : wp m Q s :=
  wp_of_wp h hok fun _ _ ↦ Weakens.imp

/-- A call of which nothing is required. -/
theorem wp_true (m : Method ε σ α) (s : σ) :
    wp m ⟨fun _ _ ↦ True, fun _ _ ↦ True, True⟩ s := by
  rw [wp]
  cases m s <;> trivial

variable {t : σ} {f : α → Method ε σ β}

theorem ok_of_wp {a : α} (h : wp m Q s) (hm : m s = .ok a t) : Q.ok a t := by
  rw [wp, hm] at h
  exact h

theorem err_of_wp {e : ε} (h : wp m Q s) (hm : m s = .err e t) : Q.err e t := by
  rw [wp, hm] at h
  exact h

theorem panic_of_wp {msg : String} (h : wp m Q s) (hm : m s = .panic msg) : Q.panic := by
  rw [wp, hm] at h
  exact h

/-- A call of which the ending is known. -/
theorem wp_of_eq_ok {a : α} (hm : m s = .ok a t) (h : Q.ok a t) : wp m Q s := by
  rw [wp, hm]
  exact h

/-- The outcome of a call, as a specification of it. -/
theorem wp_outcome (m : Method ε σ α) (s : σ) :
    wp m ⟨fun a t ↦ m s = .ok a t, fun e t ↦ m s = .err e t, ∃ msg, m s = .panic msg⟩ s := by
  rw [wp]
  cases hm : m s with
  | ok | err => rfl
  | panic msg => exact ⟨msg, rfl⟩

theorem bind_of_eq_ok {a : α} (h : m s = .ok a t) : (m >>= f) s = f a t := by
  change (match m s with
    | .ok a t => f a t
    | .err e t => .err e t
    | .panic msg => .panic msg) = f a t
  rw [h]

theorem bind_of_eq_err {e : ε} (h : m s = .err e t) : (m >>= f) s = .err e t := by
  change (match m s with
    | .ok a t => f a t
    | .err e t => .err e t
    | .panic msg => .panic msg) = .err e t
  rw [h]

/-- Two specifications of one call. -/
theorem wp_and {Q' : Post ε σ α} (h : wp m Q s) (h' : wp m Q' s) :
    wp m ⟨fun a t ↦ Q.ok a t ∧ Q'.ok a t, fun e t ↦ Q.err e t ∧ Q'.err e t, Q.panic ∧ Q'.panic⟩
      s := by
  rw [wp] at h h' ⊢
  cases hm : m s with
  | ok | err | panic => rw [hm] at h h'; exact ⟨h, h'⟩

/-- A method that can only return `a` and leave `t` does so. -/
theorem eq_ok_of_wp {a : α} (h : wp m ⟨fun a' t' ↦ a' = a ∧ t' = t, fun _ _ ↦ False, False⟩ s) :
    m s = .ok a t := by
  rw [wp] at h
  cases hm : m s with
  | ok a' t' =>
    rw [hm] at h
    obtain ⟨rfl, rfl⟩ := h
    rfl
  | err | panic => rw [hm] at h; exact h.elim

/-- A loop of checks, which leave the receiver alone, establishes what each of them checks. -/
theorem wp_forEach_of_checks {f : α → Method ε σ Unit} {P : α → σ → Prop}
    (h : ∀ a s, wp (f a) ⟨fun _ t ↦ t = s ∧ P a s, fun _ t ↦ t = s, False⟩ s) (as : List α)
    (s : σ) :
    wp (forEach f as) ⟨fun _ t ↦ t = s ∧ ∀ a ∈ as, P a s, fun _ t ↦ t = s, False⟩ s := by
  induction as with
  | nil => exact ⟨rfl, nofun⟩
  | cons a as ih =>
    rw [forEach, wp_bind]
    refine wp_of_ok (h a s) ?_
    rintro _ t ⟨rfl, ha⟩
    refine wp_of_ok ih ?_
    rintro _ u ⟨rfl, has⟩
    exact ⟨rfl, List.forall_mem_cons.mpr ⟨ha, has⟩⟩

/-! ## What a method keeps -/

/-- The state that a call leaves, whether it returns a value or an error, is in the relation `R`
to the state it found. -/
def Keeps (R : σ → σ → Prop) (m : Method ε σ α) : Prop :=
  ∀ s, wp m ⟨fun _ t ↦ R s t, fun _ t ↦ R s t, True⟩ s

section

variable {R : σ → σ → Prop}

theorem Keeps.update {f : σ → σ} (h : ∀ s, R s (f s)) :
    Keeps R (update f : Method ε σ Unit) := h

theorem Keeps.mapErr {δ : Type} {m : Method δ σ α} (h : Keeps R m) (f : δ → ε) :
    Keeps R (mapErr f m) := by
  intro s
  rw [wp_mapErr]
  exact h s

variable [Std.Refl R]

/-- A call that leaves the receiver alone. -/
theorem Keeps.of_same {m : Method ε σ α} {P : σ → α → Prop}
    (h : ∀ s, wp m ⟨fun a t ↦ t = s ∧ P s a, fun _ t ↦ t = s, False⟩ s) : Keeps R m := fun s ↦
  wp_of_wp (h s) (fun _ _ ht ↦ ht.1 ▸ refl_of R s) fun _ _ ht ↦ ht ▸ refl_of R s

theorem Keeps.pure (a : α) : Keeps R (pure a : Method ε σ α) := fun s ↦ refl_of R s

theorem Keeps.fail (e : ε) : Keeps R (fail e : Method ε σ α) := fun s ↦ refl_of R s

theorem Keeps.read (f : σ → α) : Keeps R (read f : Method ε σ α) := fun s ↦ refl_of R s

theorem Keeps.failIf (c : Prop) [Decidable c] (e : ε) :
    Keeps R (failIf c e : Method ε σ Unit) := by
  intro s
  rw [wp_failIf]
  exact ⟨fun _ ↦ refl_of R s, fun _ ↦ refl_of R s⟩

theorem Keeps.okOr (o : Option α) (e : ε) : Keeps R (okOr o e : Method ε σ α) := by
  intro s
  rw [wp_okOr]
  exact ⟨fun _ _ ↦ refl_of R s, fun _ ↦ refl_of R s⟩

theorem Keeps.lift (r : Except ε α) : Keeps R (lift r : Method ε σ α) := by
  intro s
  rw [wp_lift]
  exact ⟨fun _ _ ↦ refl_of R s, fun _ _ ↦ refl_of R s⟩

theorem Keeps.assert (b : Bool) (message : String) :
    Keeps R (assert b message : Method ε σ Unit) := by
  intro s
  rw [wp_assert]
  exact ⟨fun _ ↦ refl_of R s, fun _ ↦ trivial⟩

omit [Std.Refl R] in
theorem Keeps.ite {c : Prop} [Decidable c] {m n : Method ε σ α} (hm : Keeps R m)
    (hn : Keeps R n) : Keeps R (if c then m else n) := by
  split
  · exact hm
  · exact hn

variable [IsTrans σ R]

omit [Std.Refl R] in
theorem Keeps.bind {m : Method ε σ α} {f : α → Method ε σ β} (hm : Keeps R m)
    (hf : ∀ a, Keeps R (f a)) : Keeps R (m >>= f) := by
  intro s
  rw [wp_bind]
  refine wp_of_ok (hm s) fun a t hst ↦ ?_
  exact wp_of_wp (hf a t) (fun _ _ htu ↦ trans_of R hst htu) (fun _ _ htu ↦ trans_of R hst htu)

theorem Keeps.forEach {f : α → Method ε σ Unit} (hf : ∀ a, Keeps R (f a)) (as : List α) :
    Keeps R (forEach f as) := by
  induction as with
  | nil => exact .pure ()
  | cons a as ih => exact .bind (hf a) fun _ ↦ ih

end

section

variable {τ : Type} {R : σ → σ → Prop} {S : τ → τ → Prop}

theorem Keeps.focus {part : σ → τ} {put : σ → τ → σ} {m : Method ε τ α} (h : Keeps S m)
    (hR : ∀ s t, S (part s) t → R s (put s t)) : Keeps R (focus part put m) := by
  intro s
  rw [wp_focus]
  exact wp_of_wp (h (part s)) (fun _ t ↦ hR s t) (fun _ t ↦ hR s t)

theorem Keeps.unwrapOr {δ : Type} {m : Method δ σ α} (h : Keeps R m) (a : α) :
    Keeps R (unwrapOr a m : Method ε σ α) := by
  intro s
  rw [wp_unwrapOr]
  exact h s

end

/-! ## Invariants of a method -/

/-- The invariant `I` is kept. -/
def Maintains (I : σ → Prop) (s t : σ) : Prop := I s → I t

instance {I : σ → Prop} : Std.Refl (Maintains I) := ⟨fun _ ↦ id⟩

instance {I : σ → Prop} : IsTrans σ (Maintains I) := ⟨fun _ _ _ h h' ↦ h' ∘ h⟩

section

variable {I : σ → Prop} {m : Method ε σ α}

theorem Keeps.of_maintains (h : ∀ s, I s → wp m ⟨fun _ t ↦ I t, fun _ t ↦ I t, True⟩ s) :
    Keeps (Maintains I) m := by
  intro s
  by_cases hs : I s
  · exact wp_of_wp (h s hs) (fun _ _ ht _ ↦ ht) (fun _ _ ht _ ↦ ht)
  · exact wp_of_wp (wp_true m s) (fun _ _ _ h ↦ absurd h hs) (fun _ _ _ h ↦ absurd h hs)

theorem Keeps.wp (h : Keeps (Maintains I) m) (hs : I s) :
    wp m ⟨fun _ t ↦ I t, fun _ t ↦ I t, True⟩ s :=
  wp_of_wp (h s) (fun _ _ ht ↦ ht hs) (fun _ _ ht ↦ ht hs)

end

end Method

end Nixe
