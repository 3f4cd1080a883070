/-
**Taking the outcome of a computation apart.**

Readers and writers are sequences of steps, each of which may fail.  A sequence succeeds exactly if
all of its steps do, so a statement about a successful run splits into statements about its steps.
The lemmas here do the splitting; proofs about a reader use them in place of unfolding its binds.

Main definitions:

* `Outcome.OnlyFails` — a computation that fails with no other errors.

Main results:

* `Outcome.bind_eq_ok_iff` — **a sequence succeeds if and only if its steps do**;
* `Outcome.bind_eq_error_iff` — **a sequence fails at the first step that does**;
* `Outcome.map_eq_ok_iff`, `Outcome.mapError_eq_ok_iff` — the same for a value or an error that is
  changed on its way out;
* `Outcome.mapM_eq_ok_iff` — a reader runs through a list exactly if it reads each member;
* `Outcome.foldlM_invariant` — **what one step keeps, a whole run keeps**;
* `Outcome.OnlyFails.bind`, `Outcome.OnlyFails.mapM`, `Outcome.OnlyFails.foldlM` — what the steps do
  not fail with, the sequence does not;
* `Decoder.startingAt_append_append` — what is read back with anything behind it is read back from
  inside any bytes.
-/

import Mathlib.Data.List.Forall2
import SecurityDescriptor.Decoder

set_option relaxedAutoImplicit false
set_option autoImplicit false

namespace SecurityDescriptor

namespace Outcome

variable {α β ε : Type}

/-- **A sequence succeeds if and only if its steps do.** -/
theorem bind_eq_ok_iff {x : Except ε α} {f : α → Except ε β} {b : β} :
    x >>= f = .ok b ↔ ∃ a, x = .ok a ∧ f a = .ok b := by
  cases x with
  | error e => simp [bind, Except.bind]
  | ok a => simp [bind, Except.bind]

/-- **A sequence fails at the first step that does.** -/
theorem bind_eq_error_iff {x : Except ε α} {f : α → Except ε β} {e : ε} :
    x >>= f = .error e ↔ x = .error e ∨ ∃ a, x = .ok a ∧ f a = .error e := by
  cases x with
  | error e' => simp [bind, Except.bind]
  | ok a => simp [bind, Except.bind]

theorem map_eq_ok_iff {x : Except ε α} {f : α → β} {b : β} :
    x.map f = .ok b ↔ ∃ a, x = .ok a ∧ f a = b := by
  cases x with
  | error e => simp [Except.map]
  | ok a => simp [Except.map]

/-- A value that is changed on its way to the next step. -/
theorem map_bind {γ : Type} (x : Except ε α) (f : α → β) (g : β → Except ε γ) :
    (x.map f >>= g) = x >>= fun a => g (f a) := by
  cases x with
  | error e => rfl
  | ok a => rfl

theorem mapError_eq_ok_iff {ε' : Type} {x : Except ε α} {f : ε → ε'} {a : α} :
    x.mapError f = .ok a ↔ x = .ok a := by
  cases x with
  | error e =>
      constructor
      · intro h
        cases h
      · intro h
        cases h
  | ok b =>
      constructor
      · intro h
        cases h
        rfl
      · rintro h
        cases h
        rfl

theorem mapError_eq_error_iff {ε' : Type} {x : Except ε α} {f : ε → ε'} {e : ε'} :
    x.mapError f = .error e ↔ ∃ e', x = .error e' ∧ f e' = e := by
  cases x with
  | error e' => simp [Except.mapError]
  | ok a => simp [Except.mapError]

theorem pure_eq_ok_iff {a b : α} : (pure a : Except ε α) = .ok b ↔ a = b := by
  simp [pure, Except.pure]

@[simp] theorem mapError_ok {ε' : Type} (f : ε → ε') (a : α) :
    (Except.ok a : Except ε α).mapError f = .ok a := rfl

@[simp] theorem ok_bind (a : α) (f : α → Except ε β) : (Except.ok a >>= f) = f a := rfl

@[simp] theorem error_bind (e : ε) (f : α → Except ε β) : (Except.error e >>= f) = .error e := rfl

/-- A reader runs through a list exactly if it reads each member. -/
theorem mapM_eq_ok_iff {f : α → Except ε β} {as : List α} {bs : List β} :
    as.mapM f = .ok bs ↔ List.Forall₂ (fun a b => f a = .ok b) as bs := by
  induction as generalizing bs with
  | nil => simp [pure, Except.pure, eq_comm]
  | cons a as ih =>
      rw [List.mapM_cons, List.forall₂_cons_left_iff]
      constructor
      · intro h
        obtain ⟨b, hb, h⟩ := bind_eq_ok_iff.1 h
        obtain ⟨rest, hrest, h⟩ := bind_eq_ok_iff.1 h
        exact ⟨b, rest, hb, ih.1 hrest, (pure_eq_ok_iff.1 h).symm⟩
      · rintro ⟨b, rest, hb, hrest, rfl⟩
        rw [hb, ok_bind, ih.2 hrest, ok_bind]
        rfl

/-- **What one step keeps, a whole run keeps**: `r` relates a state to what was read before it. -/
theorem foldlM_invariant {σ : Type} {step : σ → α → Except ε σ} (r : σ → List α → Prop)
    {initial last : σ} (hinitial : r initial [])
    (hstep : ∀ s read a t, r s read → step s a = .ok t → r t (read ++ [a])) {as : List α}
    (h : as.foldlM step initial = .ok last) : r last as := by
  -- The induction needs the part that was read before.
  have hrun : ∀ {read : List α} {s : σ}, r s read → as.foldlM step s = .ok last →
      r last (read ++ as) := by
    clear h
    induction as with
    | nil =>
        intro read s hr h
        cases h
        rw [List.append_nil]
        exact hr
    | cons a as ih =>
        intro read s hr h
        rw [List.foldlM_cons] at h
        obtain ⟨t, ht, hrest⟩ := bind_eq_ok_iff.1 h
        have hnext := ih (hstep s read a t hr ht) hrest
        rw [List.append_assoc, List.singleton_append] at hnext
        exact hnext
  exact hrun hinitial h

/-! ### Errors of some kind -/

/-- **No other errors**: if the computation fails, its error is one of these. -/
def OnlyFails (p : ε → Prop) (x : Except ε α) : Prop := ∀ e, x = .error e → p e

section OnlyFails

variable {p q : ε → Prop}

theorem onlyFails_ok (p : ε → Prop) (a : α) : OnlyFails p (.ok a) := nofun

theorem onlyFails_error {e : ε} (h : p e) : OnlyFails p (.error e : Except ε α) := by
  intro other hother
  rwa [← Except.error.inj hother]

theorem OnlyFails.mono {x : Except ε α} (h : OnlyFails p x) (hpq : ∀ {e}, p e → q e) :
    OnlyFails q x := fun e he => hpq (h e he)

theorem OnlyFails.bind {x : Except ε α} {f : α → Except ε β} (hx : OnlyFails p x)
    (hf : ∀ a, OnlyFails p (f a)) : OnlyFails p (x >>= f) := by
  intro e h
  rcases bind_eq_error_iff.1 h with hfirst | ⟨a, -, hrest⟩
  · exact hx e hfirst
  · exact hf a e hrest

theorem OnlyFails.mapM {f : α → Except ε β} (h : ∀ a, OnlyFails p (f a)) (as : List α) :
    OnlyFails p (as.mapM f) := by
  induction as with
  | nil => exact onlyFails_ok p []
  | cons a as ih =>
      rw [List.mapM_cons]
      exact (h a).bind fun b => ih.bind fun bs => onlyFails_ok p (b :: bs)

theorem OnlyFails.foldlM {σ : Type} {step : σ → α → Except ε σ}
    (h : ∀ s a, OnlyFails p (step s a)) (as : List α) (s : σ) :
    OnlyFails p (as.foldlM step s) := by
  induction as generalizing s with
  | nil => exact onlyFails_ok p s
  | cons a as ih =>
      rw [List.foldlM_cons]
      exact (h s a).bind ih

end OnlyFails

/-! ### Members -/

/-- What was read came from some member. -/
theorem exists_mem_of_forall₂ {r : α → β → Prop} {as : List α} {bs : List β}
    (h : List.Forall₂ r as bs) {b : β} (hb : b ∈ bs) : ∃ a ∈ as, r a b := by
  induction h with
  | nil => exact (List.not_mem_nil hb).elim
  | cons hr _ ih =>
      rcases List.mem_cons.1 hb with rfl | hb
      · exact ⟨_, List.mem_cons_self .., hr⟩
      · obtain ⟨a, ha, hra⟩ := ih hb
        exact ⟨a, List.mem_cons_of_mem _ ha, hra⟩

/-- If every member comes from something, the whole list does. -/
theorem exists_map_eq {p : β → Prop} {f : β → α} {as : List α}
    (h : ∀ a ∈ as, ∃ b, p b ∧ f b = a) : ∃ bs : List β, (∀ b ∈ bs, p b) ∧ bs.map f = as := by
  induction as with
  | nil => exact ⟨[], fun _ hmem => (List.not_mem_nil hmem).elim, rfl⟩
  | cons a as ih =>
      obtain ⟨b, hb, rfl⟩ := h a (List.mem_cons_self ..)
      obtain ⟨bs, hbs, rfl⟩ := ih fun other hother => h other (List.mem_cons_of_mem _ hother)
      refine ⟨b :: bs, ?_, rfl⟩
      intro other hother
      rcases List.mem_cons.1 hother with rfl | hother
      · exact hb
      · exact hbs other hother

end Outcome

namespace Decoder

variable {α : Type}

theorem startingAt_eq_ok_iff {decode : Decoder α} {bytes : List UInt8} {offset : Nat} {a : α} :
    decode.startingAt bytes offset = .ok a ↔ decode (bytes.drop offset) = .ok a := by
  rw [startingAt, Outcome.mapError_eq_ok_iff]

/-- A value that is read back with whatever follows it is read back from inside any bytes. -/
theorem startingAt_append_append {decode : Decoder α} {middle : List UInt8} {a : α}
    (h : ∀ rest, decode (middle ++ rest) = .ok a) (front rest : List UInt8) :
    decode.startingAt (front ++ middle ++ rest) front.length = .ok a := by
  rw [startingAt_eq_ok_iff, List.append_assoc, List.drop_left]
  exact h rest

end Decoder

end SecurityDescriptor
