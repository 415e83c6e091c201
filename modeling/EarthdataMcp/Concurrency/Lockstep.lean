import EarthdataMcp.Concurrency.Sequential

/-!
# Two programs in lockstep

Two programs that perform the same operations, each in a world of its own, for the same choices.

* `Lockstep post p v q w`: the runs of `p` from `v` and of `q` from `w` go on together, whatever
  the choices, and `post` holds of the results and the worlds they end in;
* the rules for each program construct, and the rule of consequence;
* `Lockstep.runAlone`: the two runs both end, or neither fits the choices; `runCalls`, programs
  one after another, and `lockstep_runCalls`.
-/

namespace Concurrency

variable {I : Interface} {W C α β : Type}

namespace Prog

/-- What is said of the results of two programs and the worlds they end in. -/
abbrev Both (I : Interface) (W α β : Type) : Type :=
  Except I.Err α → W → Except I.Err β → W → Prop

/-- `p` from `v` and `q` from `w` perform the same operations for the same choices, and `post`
holds at their ends. -/
inductive Lockstep (exec : Exec I W C) (post : Both I W α β) : Prog I α → W → Prog I β → W → Prop
  | ret {r : Except I.Err α} {v : W} {r' : Except I.Err β} {w : W} (h : post r v r' w) :
      Lockstep exec post (ret r) v (ret r') w
  | act {o : I.Op} {k : I.Answer o → Prog I α} {k' : I.Answer o → Prog I β} {v w : W}
      (fits : ∀ c, exec v o c = none ↔ exec w o c = none)
      (next : ∀ c a v' b w', exec v o c = some (a, v') → exec w o c = some (b, w') →
        Lockstep exec post (k a) v' (k' b) w') :
      Lockstep exec post (act o k) v (act o k') w

variable {exec : Exec I W C} {v w : W}

/-- The rule of consequence. -/
theorem Lockstep.mono {post post' : Both I W α β} {p : Prog I α} {q : Prog I β}
    (h : Lockstep exec post p v q w)
    (hpost : ∀ r v' r' w', post r v' r' w' → post' r v' r' w') : Lockstep exec post' p v q w := by
  induction h with
  | ret h => exact .ret (hpost _ _ _ _ h)
  | act fits _ ih => exact .act fits ih

theorem lockstep_pure {post : Both I W α β} {a : α} {b : β} (h : post (.ok a) v (.ok b) w) :
    Lockstep exec post (pure a) v (pure b) w := .ret h

theorem lockstep_raise {post : Both I W α β} {e e' : I.Err} (h : post (.error e) v (.error e') w) :
    Lockstep exec post (raise e) v (raise e') w := .ret h

theorem lockstep_perform {o : I.Op} {post : Both I W (I.Ans o) (I.Ans o)}
    (fits : ∀ c, exec v o c = none ↔ exec w o c = none)
    (next : ∀ c a v' b w', exec v o c = some (a, v') → exec w o c = some (b, w') → post a v' b w') :
    Lockstep exec post (perform o) v (perform o) w :=
  .act fits fun c a v' b w' ha hb => .ret (next c a v' b w' ha hb)

/-- What is done with the results of two programs: both go on, or one or both have raised. -/
def andThen {α' β' : Type} (exec : Exec I W C) (post : Both I W α' β') (f : α → Prog I α')
    (g : β → Prog I β') : Both I W α β
  | .ok a, v, .ok b, w => Lockstep exec post (f a) v (g b) w
  | .ok a, v, .error e, w => Lockstep exec post (f a) v (ret (.error e)) w
  | .error e, v, .ok b, w => Lockstep exec post (ret (.error e)) v (g b) w
  | .error e, v, .error e', w => post (.error e) v (.error e') w

theorem Lockstep.bind {α' β' : Type} {post : Both I W α' β'} {f : α → Prog I α'}
    {g : β → Prog I β'} {p : Prog I α} {q : Prog I β}
    (h : Lockstep exec (andThen exec post f g) p v q w) :
    Lockstep exec post (p >>= f) v (q >>= g) w := by
  change Lockstep exec post (p.bind f) v (q.bind g) w
  induction h with
  | @ret r v r' w h =>
    cases r <;> cases r'
    · exact .ret h
    · exact h
    · exact h
    · exact h
  | act fits _ ih => exact .act fits ih

theorem Lockstep.attempt {post : Both I W (Except I.Err α) (Except I.Err β)} {p : Prog I α}
    {q : Prog I β} (h : Lockstep exec (fun r v' r' w' => post (.ok r) v' (.ok r') w') p v q w) :
    Lockstep exec post p.attempt v q.attempt w := by
  induction h with
  | ret h => exact .ret h
  | act fits _ ih => exact .act fits ih

/-- Two runs end alike: with equal results, `inv` in their worlds, and `good` of what they
return. -/
def Alike (inv : W → W → Prop) (good : α → W → W → Prop) : Both I W α α :=
  fun r v r' w => r = r' ∧ inv v w ∧ ∀ a, r = .ok a → good a v w

section alike

variable {inv : W → W → Prop} {good : α → W → W → Prop} {p : Prog I α}

theorem alike_ok {a : α} (hinv : inv v w) (h : good a v w) :
    Alike (I := I) inv good (.ok a) v (.ok a) w :=
  ⟨rfl, hinv, fun _ heq => Except.ok.inj heq ▸ h⟩

theorem alike_error {e : I.Err} (hinv : inv v w) :
    Alike (α := α) inv good (.error e) v (.error e) w :=
  ⟨rfl, hinv, fun _ heq => by cases heq⟩

/-- A program that ends alike, and then two that go on with its result. -/
theorem Lockstep.bind_alike {f g : α → Prog I β} {post : Both I W β β} {q : Prog I α}
    (h : Lockstep exec (Alike inv good) p v q w)
    (hok : ∀ a v' w', inv v' w' → good a v' w' → Lockstep exec post (f a) v' (g a) w')
    (herror : ∀ e v' w', inv v' w' → post (.error e) v' (.error e) w') :
    Lockstep exec post (p >>= f) v (q >>= g) w := by
  refine Lockstep.bind (h.mono ?_)
  rintro (e | a) v' _ w' ⟨rfl, hinv, hgood⟩
  · exact herror e v' w' hinv
  · exact hok a v' w' hinv (hgood a rfl)

/-- A loop that collects results, whose body ends alike. -/
theorem lockstep_collect {f : α → Prog I β} {xs : List α}
    (hbody : ∀ x ∈ xs, ∀ v w, inv v w → Lockstep exec (Alike inv fun _ _ _ => True) (f x) v (f x) w)
    (hinv : inv v w) :
    Lockstep exec (Alike inv fun _ _ _ => True) (collect f xs) v (collect f xs) w := by
  induction xs generalizing v w with
  | nil => exact lockstep_pure (alike_ok hinv trivial)
  | cons x xs ih =>
    obtain ⟨hx, hxs⟩ := List.forall_mem_cons.1 hbody
    refine (hx v w hinv).bind_alike (fun y v' w' hinv' _ => ?_) fun e v' w' h => alike_error h
    refine (ih hxs hinv').bind_alike (fun ys v'' w'' hinv'' _ => ?_) fun e v'' w'' h =>
      alike_error h
    exact lockstep_pure (alike_ok hinv'' trivial)

end alike

/-! ### Runs -/

/-- Programs in lockstep, run with the same choices, both end, and `post` holds, or the choices
fit neither. -/
theorem Lockstep.runAlone {post : Both I W α β} {p : Prog I α} {q : Prog I β}
    (h : Lockstep exec post p v q w) (cs : List C) :
    Option.Rel (fun x y => post x.1 x.2 y.1 y.2) (p.runAlone exec v cs) (q.runAlone exec w cs) := by
  induction h generalizing cs with
  | ret h =>
    cases cs with
    | nil => exact .some h
    | cons c cs => exact .none
  | @act o k k' v w fits _ ih =>
    cases cs with
    | nil => exact .none
    | cons c cs =>
      unfold Prog.runAlone
      cases hv : exec v o c with
      | none =>
        rw [(fits c).1 hv]
        exact .none
      | some x =>
        cases hw : exec w o c with
        | none =>
          rw [(fits c).2 hw] at hv
          cases hv
        | some y => exact ih c x.1 x.2 y.1 y.2 hv hw cs

/-- Run programs one after another, each with its own choices. -/
def runCalls (exec : Exec I W C) : List (Prog I α × List C) → W →
    Option (List (Except I.Err α) × W)
  | [], w => some ([], w)
  | (p, cs) :: calls, w =>
      match p.runAlone exec w cs with
      | none => none
      | some (r, w') =>
          match runCalls exec calls w' with
          | none => none
          | some (rs, w'') => some (r :: rs, w'')

/-- Calls that end alike give the same answers in both worlds, one after another. -/
theorem lockstep_runCalls {inv : W → W → Prop} (calls : List (Prog I α × List C))
    (hcalls : ∀ call ∈ calls, ∀ v w, inv v w →
      Lockstep exec (Alike inv fun _ _ _ => True) call.1 v call.1 w) (hinv : inv v w) :
    Option.Rel (fun x y => x.1 = y.1 ∧ inv x.2 y.2) (runCalls exec calls v)
      (runCalls exec calls w) := by
  induction calls generalizing v w with
  | nil => exact .some ⟨rfl, hinv⟩
  | cons call calls ih =>
    obtain ⟨hcall, hcalls⟩ := List.forall_mem_cons.1 hcalls
    have hrun := (hcall v w hinv).runAlone call.2
    unfold runCalls
    cases hv : call.1.runAlone exec v call.2 with
    | none =>
      rw [hv] at hrun
      cases hw : call.1.runAlone exec w call.2 with
      | none => exact .none
      | some y =>
        rw [hw] at hrun
        cases hrun
    | some x =>
      rw [hv] at hrun
      cases hw : call.1.runAlone exec w call.2 with
      | none =>
        rw [hw] at hrun
        cases hrun
      | some y =>
        rw [hw] at hrun
        obtain ⟨r, v'⟩ := x
        obtain ⟨r', w'⟩ := y
        cases hrun with
        | some h =>
          obtain ⟨rfl, hinv', -⟩ := h
          have hrest := ih hcalls hinv'
          dsimp only
          revert hrest
          cases runCalls exec calls v' <;> cases runCalls exec calls w' <;> rintro (_ | h)
          · exact .none
          · rename_i h
            exact .some ⟨congrArg (r :: ·) h.1, h.2⟩

end Prog

end Concurrency
