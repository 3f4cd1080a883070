/-
**Control flags along a run of changes.**

Four control flags say something about the components of a descriptor.  Wherever a descriptor comes
from, and whatever is changed about it in whatever order, they agree with the components: this is
an invariant of one change, hence of every run.

The invariant is also what keeps changes apart.  A change that could upset a flag settles all of
them, and settling flags that agree with the components already does nothing.  So putting another
system list in touches the presence flag of the system list and no other, although the flags of
the discretionary list and of the resource manager are written again.

Main definitions:

* `Descriptor.Origin`, `Descriptor.run` — where a run starts, and the descriptor behind a run;
* `Descriptor.FlagsAgree` — **the invariant**: the control flags agree with the components;
* `Descriptor.Part`, `Descriptor.Change.part`, `Descriptor.Change.mayFlag` — the part that a change
  is about, and the flags that it may touch;
* `Descriptor.Change.ChangesOnly` — nothing but these is changed.

Main results:

* `Descriptor.Reachable.run` — a run of proper changes makes a descriptor that can be had out of one;
* `Descriptor.settle_eq_iff_flagsAgree` — settled flags are flags that agree;
* `Descriptor.withSacl_of_settled`, `Descriptor.withDacl_of_settled`,
  `Descriptor.withResourceManager_of_settled`, `Descriptor.synthesize_of_absent`,
  `Descriptor.adoptDacl_of_synthetic` — what a change does to a descriptor whose flags agree;
* `Descriptor.changesOnly_apply` — **a change changes its own part only**;
* `Descriptor.Origin.flagsAgree_run` — **both hold along every run of changes**.
-/

import SecurityDescriptor.Proofs.Descriptor.Reachable

set_option relaxedAutoImplicit false
set_option autoImplicit false

namespace SecurityDescriptor

theorem Control.has_put_of_ne {flag other : ControlFlag} (h : flag ≠ other) (control : Control)
    (value : Bool) : (control.put flag value).has other = control.has other := by
  rw [Control.has_put, if_neg h]

namespace Descriptor

/-! ### Runs -/

/-- **Where a run of changes starts**: a descriptor from its components, the one without components,
and those that were read. -/
inductive Origin : Descriptor → Prop
  | made (control : Control) (owner group : Option Sid) (sacl dacl : Option AccessList) :
      Origin (make control owner group sacl dacl)
  | empty : Origin empty
  | decoded {bytes : List UInt8} {offset : Nat} {d : Descriptor}
      (h : decodeAt bytes offset = .ok d) : Origin d
  | parsed {text : List Char} {d : Descriptor} (h : parse text = .ok d) : Origin d

/-- The descriptor behind a run of changes.  An edit of a list may be any function on lists; one
that is refused is the identity. -/
def run (d : Descriptor) (changes : List Change) : Descriptor := changes.foldl Change.apply d

theorem Origin.settled {d : Descriptor} (h : Origin d) : d.settle = d := by
  cases h with
  | made control owner group sacl dacl => exact settle_settle _
  | empty => exact settle_settle _
  | decoded h => exact (listsReachable_of_decode (Decoder.startingAt_eq_ok_iff.1 h)).2
  | parsed h => exact (listsReachable_of_parse h).2

theorem settled_run {d : Descriptor} (h : d.settle = d) (changes : List Change) :
    (d.run changes).settle = d.run changes := by
  induction changes generalizing d with
  | nil => exact h
  | cons change changes ih => exact ih (settled_apply h change)

/-- **A run of proper changes makes a descriptor that can be had out of one.** -/
theorem Reachable.run {d : Descriptor} (h : d.Reachable) {changes : List Change}
    (hchanges : ∀ change ∈ changes, change.IsProper) : (d.run changes).Reachable := by
  induction changes generalizing d with
  | nil => exact h
  | cons change changes ih =>
      obtain ⟨hchange, hrest⟩ := List.forall_mem_cons.1 hchanges
      exact ih (h.changed hchange) hrest

/-! ### The invariant -/

/-- **The control flags agree with the components.** -/
structure FlagsAgree (d : Descriptor) : Prop where
  selfRelative : d.control.has .selfRelative = true
  /-- A system list that is there is marked as present. -/
  sacl : d.sacl.isSome = true → d.control.has .saclPresent = true
  /-- A discretionary list that is stored is marked as present. -/
  present : ∀ list, d.dacl = .present list → d.control.has .daclPresent = true
  /-- A discretionary list that was made up is not marked as present. -/
  synthetic : ∀ list, d.dacl = .synthetic list → d.control.has .daclPresent = false
  /-- The control byte of the resource manager is marked as valid exactly when there is one. -/
  resourceManager :
    d.control.has .resourceManagerValid = true ↔ d.resourceManager.isSome = true

theorem settle_eq_iff_flagsAgree {d : Descriptor} : d.settle = d ↔ d.FlagsAgree := by
  rw [settle_eq_iff]
  constructor
  · rintro ⟨hrelative, hmanager, hsacl, hdacl⟩
    refine ⟨hrelative, hsacl, ?_, ?_, ?_⟩
    · intro list hlist
      rw [← hdacl, hlist]
      rfl
    · intro list hlist
      rw [← hdacl, hlist]
      rfl
    · rw [hmanager]
  · rintro ⟨hrelative, hsacl, hpresent, hsynthetic, hmanager⟩
    refine ⟨hrelative, Bool.eq_iff_iff.2 hmanager, hsacl, ?_⟩
    cases hdacl : d.dacl with
    | absent => rfl
    | present list => exact (hpresent list hdacl).symm
    | synthetic list => exact (hsynthetic list hdacl).symm

/-! ### What a change does while the flags agree -/

/-- **Settling touches one flag**, if the other ones are settled from the same components. -/
theorem settle_eq_put {d e : Descriptor} {flag : ControlFlag} {value : Bool} (h : d.settle = d)
    (hflag : e.settledControl.has flag = value)
    (hother : ∀ other, other ≠ flag →
      e.settledControl.has other = d.settledControl.has other) :
    e.settle = { e with control := d.control.put flag value } := by
  have hcontrol : d.settledControl = d.control := congrArg Descriptor.control h
  have hput : e.settledControl = d.control.put flag value := by
    apply Control.ext_has
    intro other
    rw [Control.has_put]
    split
    · rename_i hsame
      rw [← hsame, hflag]
    · rename_i hne
      rw [hother other (Ne.symm hne), hcontrol]
  rw [settle, hput]

theorem withSacl_of_settled {d : Descriptor} (h : d.settle = d) (list : Option AccessList) :
    d.withSacl list
      = { d with control := d.control.put .saclPresent list.isSome, sacl := list } := by
  refine settle_eq_put h ?_ ?_
  · cases list <;> simp [has_settledControl]
  · intro other hother
    rw [has_settledControl, has_settledControl]
    cases other <;> cases list <;> simp at hother ⊢

theorem withDacl_of_settled {d : Descriptor} (h : d.settle = d) (list : Option AccessList) :
    d.withDacl list
      = { d with control := d.control.put .daclPresent list.isSome, dacl := .ofOption list } := by
  refine settle_eq_put h ?_ ?_
  · cases list <;> simp [has_settledControl, Dacl.ofOption, daclFlag]
  · intro other hother
    rw [has_settledControl, has_settledControl]
    cases other <;> cases list <;> simp at hother ⊢

theorem withResourceManager_of_settled {d : Descriptor} (h : d.settle = d) (byte : Option UInt8) :
    d.withResourceManager byte
      = { d with
          control := d.control.put .resourceManagerValid byte.isSome
          resourceManager := byte } := by
  refine settle_eq_put h ?_ ?_
  · rw [has_settledControl]
  · intro other hother
    rw [has_settledControl, has_settledControl]
    cases other <;> simp at hother ⊢

/-- Another discretionary list touches its own presence flag. -/
theorem settle_dacl {d : Descriptor} (h : d.settle = d) (dacl : Dacl) :
    settle { d with dacl := dacl }
      = { d with
          control := d.control.put .daclPresent (daclFlag dacl (d.control.has .daclPresent))
          dacl := dacl } := by
  refine settle_eq_put h ?_ ?_
  · rw [has_settledControl]
  · intro other hother
    rw [has_settledControl, has_settledControl]
    cases other <;> simp at hother ⊢

/-- A list is made up where there is none. -/
theorem synthesize_of_absent {d : Descriptor} (h : d.settle = d) (habsent : d.dacl = .absent)
    (directory container : Bool) :
    d.synthesize directory container
      = (true,
          { d with
            control := d.control.put .daclPresent false
            dacl := .synthetic (fullAccessList directory container) }) := by
  rw [synthesize, habsent]
  dsimp only
  rw [settle_dacl h, daclFlag]

theorem synthesize_of_ne_absent {d : Descriptor} (hdacl : d.dacl ≠ .absent)
    (directory container : Bool) : d.synthesize directory container = (false, d) := by
  unfold synthesize
  split
  · rename_i habsent
    exact absurd habsent hdacl
  · rfl

/-- A list that was made up is taken up as it is. -/
theorem adoptDacl_of_synthetic {d : Descriptor} (h : d.settle = d) {list : AccessList}
    (hlist : d.dacl = .synthetic list) :
    d.adoptDacl
      = { d with control := d.control.put .daclPresent true, dacl := .present list } := by
  rw [adoptDacl, hlist]
  dsimp only
  rw [settle_dacl h, daclFlag]

theorem adoptDacl_of_not_isSynthetic {d : Descriptor} (h : d.dacl.isSynthetic = false) :
    d.adoptDacl = d := by
  unfold adoptDacl
  split
  · rename_i list hlist
    rw [hlist] at h
    cases h
  · rfl

theorem editDacl_of_absent {d : Descriptor} (h : d.dacl = .absent)
    (edit : AccessList → AccessList) : d.editDacl edit = d := by
  have hadopt : d.adoptDacl = d := adoptDacl_of_not_isSynthetic (by rw [h]; rfl)
  rw [editDacl, hadopt, h]

theorem editDacl_of_present {d : Descriptor} {list : AccessList} (h : d.dacl = .present list)
    (edit : AccessList → AccessList) :
    d.editDacl edit = { d with dacl := .present (edit list) } := by
  have hadopt : d.adoptDacl = d := adoptDacl_of_not_isSynthetic (by rw [h]; rfl)
  rw [editDacl, hadopt, h]

theorem editDacl_of_synthetic {d : Descriptor} (h : d.settle = d) {list : AccessList}
    (hlist : d.dacl = .synthetic list) (edit : AccessList → AccessList) :
    d.editDacl edit
      = { d with control := d.control.put .daclPresent true, dacl := .present (edit list) } := by
  rw [editDacl, adoptDacl_of_synthetic h hlist]

/-! ### What a change leaves alone -/

/-- The parts of a descriptor. -/
inductive Part
  | control
  | owner
  | group
  | sacl
  | dacl
  | resourceManager
  deriving DecidableEq, Repr

namespace Change

/-- The part that a change is about. -/
def part : Change → Part
  | .control _ => .control
  | .owner _ => .owner
  | .group _ => .group
  | .sacl _ | .editSacl _ => .sacl
  | .dacl _ | .synthesize _ _ | .editDacl _ => .dacl
  | .resourceManager _ => .resourceManager

/-- Whether a change may touch a control flag.  Putting another list in may touch its presence flag;
editing a list may do so only if the list has to be taken up for it. -/
def mayFlag : Change → ControlFlag → Bool
  | .control _, _ => true
  | .owner _, _ | .group _, _ | .editSacl _, _ => false
  | .sacl _, flag => flag == .saclPresent
  | .dacl _, flag | .synthesize _ _, flag | .editDacl _, flag => flag == .daclPresent
  | .resourceManager _, flag => flag == .resourceManagerValid

/-- **Nothing is changed** from `d` to `e` but the part that the change is about and the control
flags that it may touch. -/
structure ChangesOnly (change : Change) (d e : Descriptor) : Prop where
  control : ∀ flag, change.mayFlag flag = false → e.control.has flag = d.control.has flag
  owner : change.part ≠ .owner → e.owner = d.owner
  group : change.part ≠ .group → e.group = d.group
  sacl : change.part ≠ .sacl → e.sacl = d.sacl
  dacl : change.part ≠ .dacl → e.dacl = d.dacl
  resourceManager : change.part ≠ .resourceManager → e.resourceManager = d.resourceManager

theorem ChangesOnly.refl (change : Change) (d : Descriptor) : change.ChangesOnly d d :=
  ⟨fun _ _ => rfl, fun _ => rfl, fun _ => rfl, fun _ => rfl, fun _ => rfl, fun _ => rfl⟩

/-- Putting a flag that a change may touch leaves those alone that it may not. -/
theorem has_put_of_mayFlag {change : Change} {flag other : ControlFlag}
    (h : change.mayFlag flag = true) (hother : change.mayFlag other = false) (control : Control)
    (value : Bool) : (control.put flag value).has other = control.has other := by
  refine Control.has_put_of_ne ?_ control value
  rintro rfl
  rw [h] at hother
  cases hother

/-- A change of the discretionary list may put its presence flag, and changes nothing else. -/
theorem ChangesOnly.of_dacl {change : Change} (hpart : change.part = .dacl)
    (hflag : change.mayFlag .daclPresent = true) (d : Descriptor) (value : Bool) (dacl : Dacl) :
    change.ChangesOnly d
      { d with control := d.control.put .daclPresent value, dacl := dacl } :=
  ⟨fun _ hother => has_put_of_mayFlag hflag hother _ _, fun _ => rfl, fun _ => rfl, fun _ => rfl,
    fun hne => absurd hpart hne, fun _ => rfl⟩

end Change

/-- **A change changes its own part only**, and of the control flags only its own. -/
theorem changesOnly_apply {d : Descriptor} (h : d.settle = d) (change : Change) :
    change.ChangesOnly d (change.apply d) := by
  cases change with
  | control word =>
      exact ⟨fun _ hflag => (by cases hflag), fun _ => rfl, fun _ => rfl, fun _ => rfl,
        fun _ => rfl, fun _ => rfl⟩
  | owner sid =>
      exact ⟨fun _ _ => rfl, fun hpart => absurd rfl hpart, fun _ => rfl, fun _ => rfl,
        fun _ => rfl, fun _ => rfl⟩
  | group sid =>
      exact ⟨fun _ _ => rfl, fun _ => rfl, fun hpart => absurd rfl hpart, fun _ => rfl,
        fun _ => rfl, fun _ => rfl⟩
  | sacl list =>
      rw [Change.apply, withSacl_of_settled h]
      exact ⟨fun _ hflag => Change.has_put_of_mayFlag (by rfl) hflag _ _, fun _ => rfl,
        fun _ => rfl, fun hpart => absurd rfl hpart, fun _ => rfl, fun _ => rfl⟩
  | dacl list =>
      rw [Change.apply, withDacl_of_settled h]
      exact .of_dacl rfl rfl d _ _
  | resourceManager byte =>
      rw [Change.apply, withResourceManager_of_settled h]
      exact ⟨fun _ hflag => Change.has_put_of_mayFlag (by rfl) hflag _ _, fun _ => rfl,
        fun _ => rfl, fun _ => rfl, fun _ => rfl, fun hpart => absurd rfl hpart⟩
  | synthesize directory container =>
      rw [Change.apply]
      by_cases habsent : d.dacl = .absent
      · rw [synthesize_of_absent h habsent]
        exact .of_dacl rfl rfl d _ _
      · rw [synthesize_of_ne_absent habsent]
        exact .refl _ d
  | editSacl edit =>
      exact ⟨fun _ _ => rfl, fun _ => rfl, fun _ => rfl, fun hpart => absurd rfl hpart,
        fun _ => rfl, fun _ => rfl⟩
  | editDacl edit =>
      rw [Change.apply]
      cases hdacl : d.dacl with
      | absent =>
          rw [editDacl_of_absent hdacl]
          exact .refl _ d
      | present list =>
          rw [editDacl_of_present hdacl]
          exact ⟨fun _ _ => rfl, fun _ => rfl, fun _ => rfl, fun _ => rfl,
            fun hpart => absurd rfl hpart, fun _ => rfl⟩
      | synthetic list =>
          rw [editDacl_of_synthetic h hdacl]
          exact .of_dacl rfl rfl d _ _

/-- **The control flags agree with the components along every run of changes**, and each change of
the run changes its own part only. -/
theorem Origin.flagsAgree_run {d : Descriptor} (h : Origin d) (changes : List Change) :
    (d.run changes).FlagsAgree ∧
      ∀ change : Change, change.ChangesOnly (d.run changes) (change.apply (d.run changes)) := by
  have hsettled := settled_run h.settled changes
  exact ⟨settle_eq_iff_flagsAgree.1 hsettled, changesOnly_apply hsettled⟩

/-- A null list that is stood in for, marked as present by hand, taken up and taken away again, with
a system list and a control byte put in on the way. -/
theorem Origin.flagsAgree_run_stoodIn :
    (run (make (.ofList [.daclPresent, .saclProtected]) none none none none)
        [.synthesize true false, .control (.ofList [.daclPresent]), .sacl (some (.empty 2)),
          .editDacl id, .resourceManager (some 7), .dacl none]).FlagsAgree ∧
      ∀ change : Change, change.ChangesOnly
        (run (make (.ofList [.daclPresent, .saclProtected]) none none none none)
          [.synthesize true false, .control (.ofList [.daclPresent]), .sacl (some (.empty 2)),
            .editDacl id, .resourceManager (some 7), .dacl none])
        (change.apply (run (make (.ofList [.daclPresent, .saclProtected]) none none none none)
          [.synthesize true false, .control (.ofList [.daclPresent]), .sacl (some (.empty 2)),
            .editDacl id, .resourceManager (some 7), .dacl none])) :=
  Origin.flagsAgree_run (.made _ none none none none) _

end Descriptor

end SecurityDescriptor
