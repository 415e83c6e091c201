import EarthdataMcp.Concurrency.Sequential

/-!
# Runs that are cut short

A program that runs alone may be stopped after any of its operations.  Some operations open a
window: what they leave is not settled until the next operation has taken effect.

* `Prog.performed` and `Prog.leaves`: the steps of a run, as far as its choices go, and the
  world it leaves;
* `Window`, with `Window.Closed`: every window that a run opens is closed by its next step;
* `Window.protocol`, and what a program that obeys it leaves: `Obeys.settled_leaves` for a run
  that is cut short, `Obeys.settled_whole` for one that is not.
-/

namespace Concurrency

variable {I : Interface} {W C α : Type}

/-- A step that was performed: the world it found, and its choice. -/
structure Performed (I : Interface) (W C : Type) where
  world : W
  op : I.Op
  choice : C

namespace Prog

variable (exec : Exec I W C)

/-- The steps of a run, as far as the choices go. -/
def performed : Prog I α → W → List C → List (Performed I W C)
  | ret _, _, _ => []
  | act _ _, _, [] => []
  | act o k, w, c :: cs =>
      match exec w o c with
      | none => []
      | some (a, w') => ⟨w, o, c⟩ :: (k a).performed w' cs

/-- The world a run leaves, as far as the choices go. -/
def leaves : Prog I α → W → List C → W
  | ret _, w, _ => w
  | act _ _, w, [] => w
  | act o k, w, c :: cs =>
      match exec w o c with
      | none => w
      | some (a, w') => (k a).leaves w' cs

variable {exec}

/-- A run that ends leaves the world it ends in. -/
theorem leaves_of_runAlone {p : Prog I α} {w w' : W} {cs : List C} {r : Except I.Err α}
    (h : p.runAlone exec w cs = some (r, w')) : p.leaves exec w cs = w' := by
  induction p generalizing w cs with
  | ret r' =>
    cases cs with
    | nil => exact (Prod.mk.inj (Option.some.inj h)).2
    | cons c cs => cases h
  | act o k ih =>
    cases cs with
    | nil => cases h
    | cons c cs =>
      unfold runAlone at h
      unfold leaves
      cases he : exec w o c with
      | none =>
        rw [he] at h
        cases h
      | some aw =>
        rw [he] at h
        exact ih aw.1 h

end Prog

/-- Which operations open a window, which close one, and which choices take effect. -/
structure Window (I : Interface) (W C : Type) where
  opens : W → I.Op → C → Bool
  closing : I.Op → Prop
  effective : C → Bool

namespace Window

variable (win : Window I W C)

/-- Every window is closed by the step after the one that opened it; `isOpen` says whether one
is open at first. -/
def Closed : Bool → List (Performed I W C) → Prop
  | isOpen, [] => isOpen = false
  | isOpen, x :: xs =>
      (isOpen = true → win.effective x.choice = true) ∧ Closed (win.opens x.world x.op x.choice) xs

instance decidableClosed : ∀ (isOpen : Bool) (xs : List (Performed I W C)),
    Decidable (win.Closed isOpen xs)
  | isOpen, [] => inferInstanceAs (Decidable (isOpen = false))
  | isOpen, x :: xs =>
      have := decidableClosed (win.opens x.world x.op x.choice) xs
      inferInstanceAs (Decidable ((isOpen = true → win.effective x.choice = true) ∧ _))

/-- What a program has to obey: outside a window the world is settled, inside one the next
operation closes it. -/
def protocol (exec : Exec I W C) (assume : W → I.Op → C → Prop) (settled : W → Prop) :
    Protocol I (W × Bool) where
  allows s o := (s.2 = false → settled s.1) ∧ (s.2 = true → win.closing o)
  next s o a s' := ∃ c, assume s.1 o c ∧ (s.2 = true → win.effective c = true) ∧
    exec s.1 o c = some (a, s'.1) ∧ s'.2 = win.opens s.1 o c

end Window

namespace Prog

variable {win : Window I W C} {exec : Exec I W C} {assume : W → I.Op → C → Prop}
  {settled : W → Prop} {p : Prog I α} {w : W} {isOpen : Bool} {cs : List C}

/-- Wherever the run is cut short, it leaves a settled world, if its windows are closed. -/
theorem Obeys.settled_leaves
    (h : p.Obeys (win.protocol exec assume settled) (w, isOpen)
      fun _ s => s.2 = false ∧ settled s.1)
    (hassume : ∀ x ∈ p.performed exec w cs, assume x.world x.op x.choice)
    (hclosed : win.Closed isOpen (p.performed exec w cs)) : settled (p.leaves exec w cs) := by
  induction p generalizing w isOpen cs with
  | ret r => exact h.2
  | act o k ih =>
    cases cs with
    | nil => exact h.1.1 hclosed
    | cons c cs =>
      unfold performed at hassume hclosed
      unfold leaves
      cases he : exec w o c with
      | none =>
        rw [he] at hclosed
        exact h.1.1 hclosed
      | some aw =>
        obtain ⟨a, w'⟩ := aw
        simp only [he, List.mem_cons, forall_eq_or_imp] at hassume hclosed
        exact ih a (h.2 a (w', win.opens w o c) ⟨c, hassume.1, hclosed.1, he, rfl⟩) hassume.2
          hclosed.2

/-- A run that ends leaves a settled world, if every operation that closes a window takes
effect. -/
theorem Obeys.settled_whole {w' : W} {r : Except I.Err α}
    (h : p.Obeys (win.protocol exec assume settled) (w, isOpen)
      fun _ s => s.2 = false ∧ settled s.1)
    (hrun : p.runAlone exec w cs = some (r, w'))
    (hassume : ∀ x ∈ p.performed exec w cs, assume x.world x.op x.choice)
    (heffective : ∀ x ∈ p.performed exec w cs, win.closing x.op → win.effective x.choice = true) :
    settled w' := by
  induction p generalizing w isOpen cs with
  | ret r' =>
    cases cs with
    | nil =>
      obtain ⟨-, rfl⟩ := Prod.mk.inj (Option.some.inj hrun)
      exact h.2
    | cons c cs => cases hrun
  | act o k ih =>
    cases cs with
    | nil => cases hrun
    | cons c cs =>
      unfold performed at hassume heffective
      unfold Prog.runAlone at hrun
      cases he : exec w o c with
      | none =>
        rw [he] at hrun
        cases hrun
      | some aw =>
        obtain ⟨a, v⟩ := aw
        rw [he] at hrun
        simp only [he, List.mem_cons, forall_eq_or_imp] at hassume heffective
        exact ih a (h.2 a (v, win.opens w o c)
          ⟨c, hassume.1, fun hopen => heffective.1 (h.1.2 hopen), he, rfl⟩) hrun hassume.2
          heffective.2

end Prog

end Concurrency
