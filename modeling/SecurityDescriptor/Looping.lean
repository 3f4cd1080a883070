/-
Programs with loops.

A loop goes round for as long as its condition holds.  Nothing in the loop says that this will ever
end, so a program with loops has one more way to come to nothing: it may run for ever.  What such a
program comes to is the least thing that fits the equations of its loops, and running for ever is the
least of all, so a loop that never ends comes to nothing, and only a loop that ends comes to a value,
to an error or to a trap.

Main definitions:

* `Looping` — a program that comes to a value, to an error or to a trap, unless it runs for ever;
* `Looping.run` — what a program comes to, if it comes to an end;
* `Looping.ofChecked` — a program without loops is one that ends;
* `Looping.settled` — the program that only comes to a given result.

Main results:

* `Looping.lift_pure`, `Looping.lift_settled` — a step without loops that does not trap;
* `Looping.bind_eq_settled`, `Looping.mapM_settled` — steps that settle one after another settle
  together.
-/

import SecurityDescriptor.Checked

set_option relaxedAutoImplicit false
set_option autoImplicit false

namespace SecurityDescriptor

/-- A program with loops: it comes to a value or an error, unless it traps or runs for ever. -/
abbrev Looping (α : Type) : Type := ExceptT Error (ExceptT Trap Option) α

namespace Looping

variable {α β : Type}

/-- What a program comes to; nothing if it runs for ever. -/
def run (program : Looping α) : Option (Except Trap (Except Error α)) :=
  ExceptT.run (ExceptT.run program)

/-- A program without loops comes to an end. -/
def ofChecked (program : Checked α) : Looping α := ExceptT.mk (ExceptT.mk (some program.run))

instance : MonadLift Checked Looping := ⟨ofChecked⟩

/-- The program that comes to `result` and does nothing else. -/
def settled (result : Except Error α) : Looping α := ofChecked (.settled result)

@[simp] theorem settled_ok (a : α) : settled (.ok a) = pure a := rfl

@[simp] theorem settled_error (e : Error) : (settled (.error e) : Looping α) = throw e := rfl

@[simp] theorem run_settled (result : Except Error α) : run (settled result) = some (.ok result) :=
  rfl

@[simp] theorem throw_bind (e : Error) (f : α → Looping β) :
    ((throw e : Looping α) >>= f) = throw e := rfl

@[simp] theorem lift_pure (a : α) : (liftM (pure a : Checked α) : Looping α) = pure a := rfl

@[simp] theorem lift_throw (e : Error) :
    (liftM (throw e : Checked α) : Looping α) = throw e := rfl

@[simp] theorem lift_settled (result : Except Error α) :
    (liftM (Checked.settled result) : Looping α) = settled result := rfl

/-- A step that settles, and programs that settle whatever the step comes to. -/
theorem bind_eq_settled {program : Looping α} {result : Except Error α} {f : α → Looping β}
    {g : α → Except Error β} (h : program = settled result) (hf : ∀ a, f a = settled (g a)) :
    program >>= f = settled (result >>= g) := by
  subst h
  cases result with
  | ok a => exact hf a
  | error e => rfl

theorem settled_bind (result : Except Error α) (f : α → Except Error β) :
    (settled result >>= fun a => settled (f a)) = settled (result >>= f) :=
  bind_eq_settled rfl fun _ => rfl

/-- Steps that settle one after another settle together. -/
theorem mapM_settled {f : α → Looping β} {g : α → Except Error β} {as : List α}
    (h : ∀ a ∈ as, f a = settled (g a)) : as.mapM f = settled (as.mapM g) := by
  induction as with
  | nil => rfl
  | cons a as ih =>
      have hhead := h a (List.mem_cons_self ..)
      have htail := ih fun other hother => h other (List.mem_cons_of_mem _ hother)
      rw [List.mapM_cons, List.mapM_cons, hhead, htail]
      cases g a with
      | error e => rfl
      | ok b =>
          cases as.mapM g with
          | error e => rfl
          | ok bs => rfl

end Looping

end SecurityDescriptor
