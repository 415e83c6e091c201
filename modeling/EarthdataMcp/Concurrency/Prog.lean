import Mathlib.Tactic

/-!
# Programs over an interface

A program is a tree of operations: each node performs one operation of an interface and goes
on with its answer, or with the exception the operation raised.  What an operation does to
the world is not part of the program, so one program can be run atomically, interleaved with
others, or only reasoned about.

* `Interface`, `Prog`, with the monad of `Prog`, `raise`, `attempt` and `interpret`;
* `Protocol I S`: which operations are allowed in a state of knowledge `S`, and which answers
  lead to which next state;
* `Prog.Obeys`: every operation of the program is allowed, whatever the answers, and a
  postcondition holds at the end; the rules for each program construct, and the rule of
  consequence;
* `Prog.Only`: every operation of the program satisfies a predicate.
-/

namespace Concurrency

/-- The operations a program may perform, what each answers, and the errors it may raise. -/
structure Interface where
  Op : Type
  Ans : Op → Type
  Err : Type

variable {I : Interface} {α β : Type} {S : Type}

/-- An answer to `o`, or the exception it raised. -/
abbrev Interface.Answer (I : Interface) (o : I.Op) : Type := Except I.Err (I.Ans o)

/-- A program: finished, or an operation and what to do with its answer. -/
inductive Prog (I : Interface) (α : Type) where
  | ret (r : Except I.Err α)
  | act (o : I.Op) (k : I.Answer o → Prog I α)

namespace Prog

/-- Run `p`, then `f` on its result; an exception skips `f`. -/
def bind : Prog I α → (α → Prog I β) → Prog I β
  | ret (.ok a), f => f a
  | ret (.error e), _ => ret (.error e)
  | act o k, f => act o fun a => (k a).bind f

instance : Monad (Prog I) where
  pure a := ret (.ok a)
  bind := bind

/-- Raise an exception. -/
def raise (e : I.Err) : Prog I α := ret (.error e)

/-- Run `p` and hand out how it ended, its exception included. -/
def attempt : Prog I α → Prog I (Except I.Err α)
  | ret r => ret (.ok r)
  | act o k => act o fun a => (k a).attempt

/-- Perform one operation. -/
def perform (o : I.Op) : Prog I (I.Ans o) := act o ret

/-- Run `f` on every element in turn. -/
def forEach (f : α → Prog I Unit) : List α → Prog I Unit
  | [] => pure ()
  | x :: xs => do f x; forEach f xs

/-- Run `f` on every element in turn and collect the results. -/
def collect (f : α → Prog I β) : List α → Prog I (List β)
  | [] => pure []
  | x :: xs => do
      let y ← f x
      let ys ← collect f xs
      pure (y :: ys)

/-- Replace every operation by a program that answers in its place. -/
def interpret (h : (o : I.Op) → Prog I (I.Ans o)) : Prog I α → Prog I α
  | ret r => ret r
  | act o k => (h o).attempt.bind fun a => (k a).interpret h

end Prog

/-! ### Protocols -/

/-- What a program is allowed to do in each state of knowledge, and how an answer changes
that state. -/
structure Protocol (I : Interface) (S : Type) where
  allows : S → I.Op → Prop
  next : S → (o : I.Op) → I.Answer o → S → Prop

namespace Prog

/-- From the state `s`, every operation `p` performs is allowed by `P`, and `post` holds of
the result and the state that are reached. -/
def Obeys (P : Protocol I S) (p : Prog I α) (s : S) (post : Except I.Err α → S → Prop) : Prop :=
  match p with
  | ret r => post r s
  | act o k => P.allows s o ∧ ∀ a s', P.next s o a s' → (k a).Obeys P s' post

section rules

variable {P : Protocol I S} {s : S}

@[simp] theorem obeys_ret {r : Except I.Err α} {post : Except I.Err α → S → Prop} :
    (ret r).Obeys P s post ↔ post r s := Iff.rfl

theorem obeys_act {o : I.Op} {k : I.Answer o → Prog I α} {post : Except I.Err α → S → Prop} :
    (act o k).Obeys P s post ↔
      P.allows s o ∧ ∀ a s', P.next s o a s' → (k a).Obeys P s' post := Iff.rfl

@[simp] theorem obeys_pure {a : α} {post : Except I.Err α → S → Prop} :
    (pure a : Prog I α).Obeys P s post ↔ post (.ok a) s := Iff.rfl

@[simp] theorem obeys_raise {e : I.Err} {post : Except I.Err α → S → Prop} :
    (raise e : Prog I α).Obeys P s post ↔ post (.error e) s := Iff.rfl

@[simp] theorem obeys_perform {o : I.Op} {post : I.Answer o → S → Prop} :
    (perform o).Obeys P s post ↔ P.allows s o ∧ ∀ a s', P.next s o a s' → post a s' := Iff.rfl

/-- The rule of consequence. -/
theorem Obeys.mono {p : Prog I α} {post post' : Except I.Err α → S → Prop}
    (h : p.Obeys P s post) (hpost : ∀ r s', post r s' → post' r s') : p.Obeys P s post' := by
  induction p generalizing s with
  | ret r => exact hpost r s h
  | act o k ih =>
    obtain ⟨ha, hk⟩ := h
    exact ⟨ha, fun a s' hn => ih a (hk a s' hn)⟩

/-- What is done with the result of a program that `f` follows. -/
def afterBind (P : Protocol I S) (f : α → Prog I β) (post : Except I.Err β → S → Prop) :
    Except I.Err α → S → Prop
  | .ok a, s => (f a).Obeys P s post
  | .error e, s => post (.error e) s

@[simp] theorem afterBind_ok {f : α → Prog I β} {post : Except I.Err β → S → Prop} {a : α} :
    afterBind P f post (.ok a) s ↔ (f a).Obeys P s post := Iff.rfl

@[simp] theorem afterBind_error {f : α → Prog I β} {post : Except I.Err β → S → Prop}
    {e : I.Err} : afterBind P f post (.error e) s ↔ post (.error e) s := Iff.rfl

@[simp] theorem obeys_bind {p : Prog I α} {f : α → Prog I β} {post : Except I.Err β → S → Prop} :
    (p >>= f).Obeys P s post ↔ p.Obeys P s (afterBind P f post) := by
  change (p.bind f).Obeys P s post ↔ _
  induction p generalizing s with
  | ret r => cases r <;> rfl
  | act o k ih => simp only [Prog.bind, obeys_act, ih]

@[simp] theorem obeys_attempt {p : Prog I α}
    {post : Except I.Err (Except I.Err α) → S → Prop} :
    p.attempt.Obeys P s post ↔ p.Obeys P s fun r s' => post (.ok r) s' := by
  induction p generalizing s with
  | ret r => rfl
  | act o k ih => simp only [attempt, obeys_act, ih]

/-- A loop whose body keeps `inv`, and raises only where `post` holds. -/
theorem obeys_forEach {f : α → Prog I Unit} {xs : List α} (inv : S → Prop)
    {post : Except I.Err Unit → S → Prop}
    (hbody : ∀ x ∈ xs, ∀ s, inv s →
      (f x).Obeys P s fun r s' => inv s' ∧ ∀ e, r = .error e → post (.error e) s')
    (hs : inv s) (hpost : ∀ s, inv s → post (.ok ()) s) :
    (forEach f xs).Obeys P s post := by
  induction xs generalizing s with
  | nil => exact hpost s hs
  | cons x xs ih =>
    rw [forEach, obeys_bind]
    refine (hbody x List.mem_cons_self s hs).mono ?_
    rintro (e | ⟨⟩) s' ⟨hinv, herr⟩
    · exact herr e rfl
    · exact ih (fun y hy => hbody y (List.mem_cons_of_mem _ hy)) hinv

/-- A loop that collects results while what is known grows along `R`; each result is `good`, as
far as is known at the end, for the element it comes from. -/
theorem obeys_collect_grows {f : α → Prog I β} {xs : List α} {R : S → S → Prop}
    {good : S → α → β → Prop} (hrefl : ∀ s, R s s) (htrans : ∀ s t u, R s t → R t u → R s u)
    (hgood : ∀ s t x y, R s t → good s x y → good t x y)
    (hbody : ∀ x ∈ xs, ∀ s,
      (f x).Obeys P s fun r s' => R s s' ∧ ∀ y, r = .ok y → good s' x y) :
    (collect f xs).Obeys P s fun r s' => R s s' ∧ ∀ ys, r = .ok ys →
      List.Forall₂ (good s') xs ys := by
  induction xs generalizing s with
  | nil =>
    refine ⟨hrefl s, ?_⟩
    rintro _ ⟨⟩
    exact .nil
  | cons x xs ih =>
    rw [collect, obeys_bind]
    refine (hbody x List.mem_cons_self s).mono ?_
    rintro (e | y) t ⟨hst, hy⟩
    · exact ⟨hst, fun _ h => by cases h⟩
    · rw [afterBind_ok, obeys_bind]
      refine (ih fun z hz => hbody z (List.mem_cons_of_mem _ hz)).mono ?_
      rintro (e | ys) u ⟨htu, hys⟩
      · exact ⟨htrans _ _ _ hst htu, fun _ h => by cases h⟩
      · refine ⟨htrans _ _ _ hst htu, ?_⟩
        rintro _ ⟨⟩
        exact .cons (hgood _ _ _ _ htu (hy y rfl)) (hys ys rfl)

/-- A loop that collects results, each of which is `good` for the element it comes from. -/
theorem obeys_collect_forall {f : α → Prog I β} {xs : List α} (inv : S → Prop)
    (good : α → β → Prop)
    (hbody : ∀ x ∈ xs, ∀ s, inv s →
      (f x).Obeys P s fun r s' => inv s' ∧ ∀ y, r = .ok y → good x y)
    (hs : inv s) :
    (collect f xs).Obeys P s fun r s' => inv s' ∧ ∀ ys, r = .ok ys → List.Forall₂ good xs ys := by
  induction xs generalizing s with
  | nil =>
    refine ⟨hs, ?_⟩
    rintro _ ⟨⟩
    exact .nil
  | cons x xs ih =>
    rw [collect, obeys_bind]
    refine (hbody x List.mem_cons_self s hs).mono ?_
    rintro (e | y) s' ⟨hinv, hgood⟩
    · exact ⟨hinv, fun _ h => by cases h⟩
    · rw [afterBind_ok, obeys_bind]
      refine (ih (fun z hz => hbody z (List.mem_cons_of_mem _ hz)) hinv).mono ?_
      rintro (e | ys) t ⟨ht, hys⟩
      · exact ⟨ht, fun _ h => by cases h⟩
      · refine ⟨ht, ?_⟩
        rintro _ ⟨⟩
        exact .cons (hgood y rfl) (hys ys rfl)

/-- If each operation's replacement obeys `Q` and answers as `P` expects, a program that
obeys `P` obeys `Q` once its operations are replaced. -/
theorem Obeys.interpret {Q : Protocol I S} {h : (o : I.Op) → Prog I (I.Ans o)} {p : Prog I α}
    {post : Except I.Err α → S → Prop} (hp : p.Obeys P s post)
    (hop : ∀ s o, P.allows s o → (h o).Obeys Q s fun a s' => P.next s o a s') :
    (p.interpret h).Obeys Q s post := by
  induction p generalizing s with
  | ret r => exact hp
  | act o k ih =>
    obtain ⟨ha, hk⟩ := hp
    show ((h o).attempt >>= fun a => (k a).interpret h).Obeys Q s post
    rw [obeys_bind, obeys_attempt]
    exact (hop s o ha).mono fun a s' hn => ih a (hk a s' hn)

end rules

/-! ### Programs that use part of the interface -/

/-- Every operation of `p`, on every path, satisfies `φ`. -/
def Only (φ : I.Op → Prop) : Prog I α → Prop
  | ret _ => True
  | act o k => φ o ∧ ∀ a, (k a).Only φ

section only

variable {φ : I.Op → Prop}

@[simp] theorem only_ret {r : Except I.Err α} : (ret r).Only φ := trivial

@[simp] theorem only_pure {a : α} : (pure a : Prog I α).Only φ := trivial

@[simp] theorem only_raise {e : I.Err} : (raise e : Prog I α).Only φ := trivial

@[simp] theorem only_perform {o : I.Op} : (perform o).Only φ ↔ φ o :=
  ⟨fun h => h.1, fun h => ⟨h, fun _ => trivial⟩⟩

theorem Only.bind {p : Prog I α} {f : α → Prog I β} (hp : p.Only φ) (hf : ∀ a, (f a).Only φ) :
    (p >>= f).Only φ := by
  change (p.bind f).Only φ
  induction p with
  | ret r => cases r with
    | ok a => exact hf a
    | error e => trivial
  | act o k ih => exact ⟨hp.1, fun a => ih a (hp.2 a)⟩

theorem Only.attempt {p : Prog I α} (hp : p.Only φ) : p.attempt.Only φ := by
  induction p with
  | ret r => trivial
  | act o k ih => exact ⟨hp.1, fun a => ih a (hp.2 a)⟩

theorem Only.mono {ψ : I.Op → Prop} {p : Prog I α} (hp : p.Only φ) (h : ∀ o, φ o → ψ o) :
    p.Only ψ := by
  induction p with
  | ret r => trivial
  | act o k ih => exact ⟨h o hp.1, fun a => ih a (hp.2 a)⟩

theorem Only.forEach {f : α → Prog I Unit} {xs : List α} (hf : ∀ x ∈ xs, (f x).Only φ) :
    (forEach f xs).Only φ := by
  induction xs with
  | nil => trivial
  | cons x xs ih =>
    exact (hf x List.mem_cons_self).bind fun _ => ih fun y hy => hf y (List.mem_cons_of_mem _ hy)

theorem Only.collect {f : α → Prog I β} {xs : List α} (hf : ∀ x ∈ xs, (f x).Only φ) :
    (collect f xs).Only φ := by
  induction xs with
  | nil => trivial
  | cons x xs ih =>
    exact (hf x List.mem_cons_self).bind fun _ =>
      (ih fun y hy => hf y (List.mem_cons_of_mem _ hy)).bind fun _ => trivial

theorem Only.interpret {ψ : I.Op → Prop} {h : (o : I.Op) → Prog I (I.Ans o)} {p : Prog I α}
    (hp : p.Only φ) (hop : ∀ o, φ o → (h o).Only ψ) : (p.interpret h).Only ψ := by
  induction p with
  | ret r => trivial
  | act o k ih => exact (hop o hp.1).attempt.bind fun a => ih a (hp.2 a)

/-- Operations that are allowed and keep what is known keep it to the end. -/
theorem Only.obeys {P : Protocol I S} {inv : S → Prop} {p : Prog I α} {s : S} (hp : p.Only φ)
    (hallow : ∀ s o, inv s → φ o → P.allows s o)
    (hnext : ∀ s o a s', inv s → φ o → P.next s o a s' → inv s') (hs : inv s) :
    p.Obeys P s fun _ s' => inv s' := by
  induction p generalizing s with
  | ret r => exact hs
  | act o k ih =>
    exact ⟨hallow s o hs hp.1, fun a s' hn => ih a (hp.2 a) (hnext s o a s' hs hp.1 hn)⟩

end only

end Prog

end Concurrency
