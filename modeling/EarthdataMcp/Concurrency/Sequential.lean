import EarthdataMcp.Concurrency.Prog

/-!
# Programs run alone

A program that runs from a world with nothing else going on: each operation takes the next
choice of a list.

* `Exec`, the effect of every operation; `runAlone` and `Along`, which evaluate a run and what
  holds of each of its steps; `runWith`, a run whose choices are settled beforehand;
* `amid`, the effect of an operation when others have run since the last one;
* `tracked`: the protocol that knows the world, and whether every step so far has passed a
  check; to obey it is to meet a postcondition on every run (`Obeys.runAlone`).
-/

namespace Concurrency

variable {I : Interface} {W C α : Type}

/-- The effect of an operation on a world, for each choice that fits it. -/
abbrev Exec (I : Interface) (W C : Type) : Type :=
  W → (o : I.Op) → C → Option (I.Answer o × W)

/-- The effect of every operation where others run in between: the choice names the world that
they have left. -/
def amid (exec : Exec I W C) : Exec I W (W × C) := fun _ o c => exec c.1 o c.2

namespace Prog

variable (exec : Exec I W C)

/-- Run a program by itself; every operation takes the next choice. -/
def runAlone : Prog I α → W → List C → Option (Except I.Err α × W)
  | ret r, w, [] => some (r, w)
  | ret _, _, _ :: _ => none
  | act _ _, _, [] => none
  | act o k, w, c :: cs =>
      match exec w o c with
      | none => none
      | some (a, w') => (k a).runAlone w' cs

/-- Every step of the run passes the check. -/
def Along (check : W → I.Op → C → Bool) : Prog I α → W → List C → Bool
  | ret _, _, _ => true
  | act _ _, _, [] => true
  | act o k, w, c :: cs =>
      check w o c &&
        match exec w o c with
        | none => true
        | some (a, w') => (k a).Along check w' cs

variable {exec} {β : Type} {w w' : W} {o : I.Op} {c : C} {cs : List C}

theorem runAlone_act_ok {k : I.Answer o → Prog I α} {a : I.Answer o}
    (h : exec w o c = some (a, w')) :
    (act o k).runAlone exec w (c :: cs) = (k a).runAlone exec w' cs := by
  simp only [runAlone, h]

/-- An operation that takes effect, and then the rest. -/
theorem runAlone_perform_bind {f : I.Ans o → Prog I β} {a : I.Ans o}
    (h : exec w o c = some (.ok a, w')) :
    (perform o >>= f).runAlone exec w (c :: cs) = (f a).runAlone exec w' cs :=
  runAlone_act_ok (k := fun a => (ret a).bind f) h

/-- A program that ends with an exception ends whatever was to follow it. -/
theorem runAlone_bind_error {p : Prog I α} {f : α → Prog I β} {e : I.Err}
    (h : p.runAlone exec w cs = some (.error e, w')) :
    (p >>= f).runAlone exec w cs = some (.error e, w') := by
  change (p.bind f).runAlone exec w cs = _
  induction p generalizing w cs with
  | ret r =>
    cases cs with
    | nil =>
      obtain ⟨rfl, rfl⟩ := Prod.mk.inj (Option.some.inj h)
      rfl
    | cons c cs => cases h
  | act o k ih =>
    cases cs with
    | nil => cases h
    | cons c cs =>
      unfold runAlone at h
      cases he : exec w o c with
      | none =>
        rw [he] at h
        cases h
      | some av =>
        rw [he] at h
        exact (runAlone_act_ok (k := fun a => (k a).bind f) he).trans (ih av.1 h)

theorem along_bind_error {check : W → I.Op → C → Bool} {p : Prog I α} {f : α → Prog I β}
    {e : I.Err} (h : p.runAlone exec w cs = some (.error e, w')) :
    (p >>= f).Along exec check w cs = p.Along exec check w cs := by
  change (p.bind f).Along exec check w cs = _
  induction p generalizing w cs with
  | ret r =>
    cases cs with
    | nil =>
      obtain ⟨rfl, rfl⟩ := Prod.mk.inj (Option.some.inj h)
      rfl
    | cons c cs => cases h
  | act o k ih =>
    cases cs with
    | nil => cases h
    | cons c cs =>
      unfold runAlone at h
      unfold bind Along
      cases he : exec w o c with
      | none => rfl
      | some av =>
        rw [he] at h
        exact congrArg (check w o c && ·) (ih av.1 h)

theorem runAlone_perform {a : I.Answer o} (h : exec w o c = some (a, w')) :
    (perform o).runAlone exec w [c] = some (a, w') :=
  runAlone_act_ok (k := ret) h

/-- Run a program by itself, where the choice of each operation is settled beforehand. -/
def runWith (exec : Exec I W C) (pick : I.Op → C) : Prog I α → W → Option (Except I.Err α × W)
  | ret r, w => some (r, w)
  | act o k, w =>
      match exec w o (pick o) with
      | none => none
      | some (a, w') => (k a).runWith exec pick w'

section runWith

variable {pick : I.Op → C}

theorem runWith_act {k : I.Answer o → Prog I α} {a : I.Answer o}
    (h : exec w o (pick o) = some (a, w')) :
    (act o k).runWith exec pick w = (k a).runWith exec pick w' := by
  simp only [runWith, h]

theorem runWith_of_act {k : I.Answer o → Prog I α} {outcome : Except I.Err α × W}
    (h : (act o k).runWith exec pick w = some outcome) :
    ∃ a v, exec w o (pick o) = some (a, v) ∧ (k a).runWith exec pick v = some outcome := by
  unfold runWith at h
  cases he : exec w o (pick o) with
  | none =>
    rw [he] at h
    cases h
  | some av =>
    rw [he] at h
    exact ⟨av.1, av.2, rfl, h⟩

theorem runWith_perform {a : I.Answer o} (h : exec w o (pick o) = some (a, w')) :
    (perform o).runWith exec pick w = some (a, w') :=
  runWith_act (k := ret) h

/-- A program that ends without an exception, and then the rest. -/
theorem runWith_bind {p : Prog I α} {f : α → Prog I β} {a : α}
    (h : p.runWith exec pick w = some (.ok a, w')) :
    (p >>= f).runWith exec pick w = (f a).runWith exec pick w' := by
  change (p.bind f).runWith exec pick w = _
  induction p generalizing w with
  | ret r =>
    obtain ⟨rfl, rfl⟩ := Prod.mk.inj (Option.some.inj h)
    rfl
  | act o k ih =>
    obtain ⟨a', v, he, hk⟩ := runWith_of_act h
    exact (runWith_act (k := fun a' => (k a').bind f) he).trans (ih a' hk)

theorem runWith_attempt {p : Prog I α} {r : Except I.Err α}
    (h : p.runWith exec pick w = some (r, w')) :
    p.attempt.runWith exec pick w = some (.ok r, w') := by
  induction p generalizing w with
  | ret r' =>
    obtain ⟨rfl, rfl⟩ := Prod.mk.inj (Option.some.inj h)
    rfl
  | act o k ih =>
    obtain ⟨a', v, he, hk⟩ := runWith_of_act h
    exact (runWith_act (k := fun a' => (k a').attempt) he).trans (ih a' hk)

end runWith

section total

variable {φ : I.Op → Prop} {c : C}

/-- A program whose operations accept a choice has a run in which they all take it. -/
theorem Only.exists_runAlone {p : Prog I α} (hp : p.Only φ)
    (hexec : ∀ o, φ o → ∀ w, ∃ a w', exec w o c = some (a, w')) (w : W) :
    ∃ n r w', p.runAlone exec w (List.replicate n c) = some (r, w') := by
  induction p generalizing w with
  | ret r => exact ⟨0, r, w, rfl⟩
  | act o k ih =>
    obtain ⟨a, v, he⟩ := hexec o hp.1 w
    obtain ⟨n, r, w', hrun⟩ := ih a (hp.2 a) v
    exact ⟨n + 1, r, w', (runAlone_act_ok he).trans hrun⟩

theorem along_replicate {check : W → I.Op → C → Bool} (p : Prog I α) (n : ℕ) (w : W)
    (hcheck : ∀ w o, check w o c = true) :
    p.Along exec check w (List.replicate n c) = true := by
  induction p generalizing n w with
  | ret r => rfl
  | act o k ih =>
    cases n with
    | zero => rfl
    | succ n =>
      rw [List.replicate_succ, Along, hcheck, Bool.true_and]
      cases exec w o c with
      | none => rfl
      | some av => exact ih av.1 n av.2

end total

end Prog

/-- What is known when a program runs alone: the world, and whether every step so far has
passed the check; the choices are among those that are assumed. -/
def tracked (exec : Exec I W C) (assume check : W → I.Op → C → Bool) :
    Protocol I (W × Bool) where
  allows _ _ := True
  next s o a s' := ∃ c, assume s.1 o c = true ∧ exec s.1 o c = some (a, s'.1) ∧
    s'.2 = (s.2 && check s.1 o c)

namespace Prog

variable {exec : Exec I W C} {assume check : W → I.Op → C → Bool}

/-- A program that obeys the tracking protocol meets its postcondition on every run. -/
theorem Obeys.runAlone {p : Prog I α} {w w' : W} {ok : Bool} {cs : List C} {r : Except I.Err α}
    {post : Except I.Err α → W × Bool → Prop} (h : p.Obeys (tracked exec assume check) (w, ok) post)
    (hrun : p.runAlone exec w cs = some (r, w')) (hassume : p.Along exec assume w cs = true) :
    post r (w', ok && p.Along exec check w cs) := by
  induction p generalizing w ok cs with
  | ret r' =>
    cases cs with
    | nil =>
      obtain ⟨rfl, rfl⟩ := Prod.mk.inj (Option.some.inj hrun)
      rw [Along, Bool.and_true]
      exact h
    | cons c cs => cases hrun
  | act o k ih =>
    cases cs with
    | nil => cases hrun
    | cons c cs =>
      unfold Prog.runAlone at hrun
      unfold Along at hassume ⊢
      cases he : exec w o c with
      | none => rw [he] at hrun; cases hrun
      | some aw =>
        obtain ⟨a, v⟩ := aw
        rw [he] at hrun
        simp only [he, Bool.and_eq_true] at hassume ⊢
        rw [← Bool.and_assoc]
        exact ih a (h.2 a (v, ok && check w o c) ⟨c, hassume.1, he, rfl⟩) hrun hassume.2

end Prog

end Concurrency
