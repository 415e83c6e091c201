import EarthdataMcp.Concurrency.Prog

/-!
# Threads over a shared world

A system runs any number of programs against one world.  A step is one operation of one
thread, with a choice made by the environment (an answer from outside, a fault), or a step of
the environment itself, which may start new threads.

* `System`, `System.State`, `System.step`;
* `System.Reach P`: the states of every run whose steps all satisfy `P`, and `runIf`, which
  evaluates such a run;
* `Monitor`: what is known of a thread from the operations it has performed so far;
* `Exclusive`: no two threads hold the same key, or no two of some;
* `Reach.invariant`: programs that obey a protocol keep every invariant that one allowed
  operation keeps.
-/

namespace Concurrency

/-- A world, the effect of each operation on it, and the threads that can be started. -/
structure System (I : Interface) where
  World : Type
  Choice : Type
  exec : World → (o : I.Op) → Choice → Option (I.Answer o × World)
  Origin : Type
  Out : Type
  program : Origin → Prog I Out
  Env : Type
  env : World → Env → Option (World × List Origin)

variable {I : Interface}

/-- One operation performed by a thread, and its answer. -/
structure Event (I : Interface) where
  op : I.Op
  ans : I.Answer op

/-- A thread: where it comes from, what it has done (newest first), what it will do. -/
structure Thread (I : Interface) (Origin Out : Type) where
  origin : Origin
  past : List (Event I)
  rest : Prog I Out

/-- The thread after its next operation was answered. -/
def Thread.advance {Origin Out : Type} (t : Thread I Origin Out) (o : I.Op) (a : I.Answer o)
    (k : I.Answer o → Prog I Out) : Thread I Origin Out :=
  ⟨t.origin, ⟨o, a⟩ :: t.past, k a⟩

/-- How the thread has ended, if it has. -/
def Thread.result {Origin Out : Type} (t : Thread I Origin Out) : Option (Except I.Err Out) :=
  match t.rest with
  | .ret r => some r
  | .act _ _ => none

theorem Thread.result_eq_some {Origin Out : Type} {t : Thread I Origin Out}
    {r : Except I.Err Out} : t.result = some r ↔ t.rest = .ret r := by
  obtain ⟨g, past, rest⟩ := t
  cases rest with
  | ret r' =>
    show some r' = some r ↔ _
    rw [Option.some.injEq, Prog.ret.injEq]
  | act o k =>
    constructor <;> intro h <;> cases h

namespace System

variable (S : System I)

/-- The threads of a system. -/
abbrev Thread : Type := Concurrency.Thread I S.Origin S.Out

/-- A state of the system. -/
structure State where
  world : S.World
  threads : List S.Thread

/-- A step: an operation of thread `i`, or a step of the environment. -/
inductive Label where
  | act (i : ℕ) (c : S.Choice)
  | env (e : S.Env)

/-- A thread that has not performed anything. -/
def spawn (g : S.Origin) : S.Thread := ⟨g, [], S.program g⟩

variable {S}

/-- Thread `t`, number `i`, performs its next operation. -/
def stepThread (s : S.State) (i : ℕ) (c : S.Choice) (t : S.Thread) : Option S.State :=
  match t.rest with
  | .ret _ => none
  | .act o k =>
      match S.exec s.world o c with
      | none => none
      | some (a, w) => some ⟨w, s.threads.set i (t.advance o a k)⟩

/-- One step. -/
def step (s : S.State) : S.Label → Option S.State
  | .act i c =>
      match s.threads[i]? with
      | none => none
      | some t => stepThread s i c t
  | .env e =>
      match S.env s.world e with
      | none => none
      | some (w, gs) => some ⟨w, s.threads ++ gs.map S.spawn⟩

/-- The operation thread `i` performs next. -/
def nextOp (s : S.State) (i : ℕ) : Option I.Op :=
  match s.threads[i]? with
  | some ⟨_, _, .act o _⟩ => some o
  | _ => none

/-- `s'` is reached from `s` by a run whose steps all satisfy `P`. -/
inductive Reach (P : S.State → S.Label → S.State → Prop) (s : S.State) : S.State → Prop where
  | refl : Reach P s s
  | tail {t u : S.State} (l : S.Label) :
      Reach P s t → step t l = some u → P t l u → Reach P s u

/-- Every operation satisfies `φ` in the state in which a thread is about to perform it. -/
def EachOp (φ : S.State → ℕ → I.Op → Prop) (s : S.State) : S.Label → S.State → Prop
  | .act i _, _ => ∀ o ∈ nextOp s i, φ s i o
  | .env _, _ => True

instance (φ : S.State → ℕ → I.Op → Prop) [∀ s i o, Decidable (φ s i o)] (s : S.State)
    (l : S.Label) (t : S.State) : Decidable (EachOp φ s l t) :=
  match l with
  | .act i _ => inferInstanceAs (Decidable (∀ o ∈ nextOp s i, φ s i o))
  | .env _ => inferInstanceAs (Decidable True)

/-- Run a sequence of steps, as long as every step satisfies `P`. -/
def runIf (P : S.State → S.Label → S.State → Prop) [∀ s l t, Decidable (P s l t)]
    (s : S.State) : List S.Label → Option S.State
  | [] => some s
  | l :: ls =>
      match step s l with
      | none => none
      | some s' => if P s l s' then runIf P s' ls else none

/-- `s'` is reached from `s` by any run. -/
abbrev Reachable (s s' : S.State) : Prop := Reach (fun _ _ _ => True) s s'

variable {P Q : S.State → S.Label → S.State → Prop} {s t u : S.State}

theorem Reach.trans (h : Reach P s t) (h' : Reach P t u) : Reach P s u := by
  induction h' with
  | refl => exact h
  | tail l _ hstep hP ih => exact .tail l ih hstep hP

theorem Reach.mono (h : Reach P s t) (hPQ : ∀ a l b, P a l b → Q a l b) : Reach Q s t := by
  induction h with
  | refl => exact .refl
  | tail l _ hstep hP ih => exact .tail l ih hstep (hPQ _ _ _ hP)

/-- What is known of every state that is reached may be assumed of every step. -/
theorem Reach.with {K : S.State → Prop} (h : Reach P s t) (hK : ∀ u, Reach P s u → K u) :
    Reach (fun a l b => P a l b ∧ K a) s t := by
  induction h with
  | refl => exact .refl
  | tail l hreach hstep hP ih => exact .tail l ih hstep ⟨hP, hK _ hreach⟩

theorem reach_of_runIf [∀ s l t, Decidable (P s l t)] {ls : List S.Label}
    (h : runIf P s ls = some t) : Reach P s t := by
  induction ls generalizing s with
  | nil =>
    obtain rfl := Option.some.inj h
    exact .refl
  | cons l ls ih =>
    unfold runIf at h
    cases hs : step s l with
    | none => simp [hs] at h
    | some u =>
      simp only [hs] at h
      split_ifs at h with hP
      exact (Reach.tail l .refl hs hP).trans (ih h)

/-- A run found by evaluation, and what is seen of the state it ends in. -/
theorem exists_reach [∀ s l t, Decidable (P s l t)] {p : S.State → Bool} (ls : List S.Label)
    (h : (runIf P s ls).any p = true) : ∃ t, Reach P s t ∧ p t = true := by
  obtain ⟨t, ht, hp⟩ := (Option.any_eq_true p _).1 h
  exact ⟨t, reach_of_runIf ht, hp⟩

theorem nextOp_eq {i : ℕ} {th : S.Thread} {o : I.Op} {k : I.Answer o → Prog I S.Out}
    (hth : s.threads[i]? = some th) (hr : th.rest = .act o k) : nextOp s i = some o := by
  obtain ⟨g, past, rest⟩ := th
  subst hr
  simp only [nextOp, hth]

/-- What an operation of a thread does. -/
theorem step_act_eq_some {i : ℕ} {c : S.Choice} :
    step s (.act i c) = some t ↔
      ∃ th o k a w, s.threads[i]? = some th ∧ th.rest = .act o k ∧
        S.exec s.world o c = some (a, w) ∧ t = ⟨w, s.threads.set i (th.advance o a k)⟩ := by
  constructor
  · intro h
    unfold step at h
    cases hth : s.threads[i]? with
    | none => simp [hth] at h
    | some th =>
      simp only [hth, stepThread] at h
      cases hr : th.rest with
      | ret r => simp [hr] at h
      | act o k =>
        simp only [hr] at h
        cases he : S.exec s.world o c with
        | none => simp [he] at h
        | some aw =>
          obtain ⟨a, w⟩ := aw
          simp only [he, Option.some.injEq] at h
          exact ⟨th, o, k, a, w, rfl, hr, he, h.symm⟩
  · rintro ⟨th, o, k, a, w, hth, hr, he, rfl⟩
    simp only [step, hth, stepThread, hr, he]

/-- What a step of the environment does. -/
theorem step_env_eq_some {e : S.Env} :
    step s (.env e) = some t ↔
      ∃ w gs, S.env s.world e = some (w, gs) ∧ t = ⟨w, s.threads ++ gs.map S.spawn⟩ := by
  cases he : S.env s.world e with
  | none => simp [step, he]
  | some wg =>
    obtain ⟨w, gs⟩ := wg
    simp [step, he, eq_comm]

end System

/-! ### Exclusive keys -/

section exclusive

variable {τ κ : Type} {key : τ → Option κ} {ts : List τ}

/-- No two elements at these positions of the list hold the same key. -/
def ExclusiveAt (live : ℕ → Prop) (key : τ → Option κ) (ts : List τ) : Prop :=
  ∀ (i j : ℕ) (t u : τ) (k : κ), live i → live j → ts[i]? = some t → ts[j]? = some u →
    key t = some k → key u = some k → i = j

/-- No two elements of the list hold the same key. -/
def Exclusive (key : τ → Option κ) (ts : List τ) : Prop :=
  ∀ (i j : ℕ) (t u : τ) (k : κ), ts[i]? = some t → ts[j]? = some u → key t = some k →
    key u = some k → i = j

theorem exclusive_iff : Exclusive key ts ↔ ExclusiveAt (fun _ => True) key ts :=
  ⟨fun h i j t u k _ _ => h i j t u k, fun h i j t u k => h i j t u k trivial trivial⟩

variable {live : ℕ → Prop}

theorem ExclusiveAt.nil : ExclusiveAt live key [] := fun i _ t _ _ _ _ h => by simp at h

theorem Exclusive.nil : Exclusive key [] := exclusive_iff.2 .nil

/-- What an element of an updated list is. -/
theorem getElem?_set_cases {i j : ℕ} {t u : τ} (h : (ts.set i t)[j]? = some u) :
    j = i ∧ u = t ∨ j ≠ i ∧ ts[j]? = some u := by
  by_cases hj : j = i
  · subst hj
    rw [List.getElem?_set_self'] at h
    cases hts : ts[j]? with
    | none => simp [hts] at h
    | some v =>
      simp only [hts, Functor.map, Option.map_some, Option.some.injEq] at h
      exact Or.inl ⟨rfl, h.symm⟩
  · rw [List.getElem?_set_ne (Ne.symm hj)] at h
    exact Or.inr ⟨hj, h⟩

/-- What an element of an extended list is. -/
theorem getElem?_append_cases {i : ℕ} {t : τ} {us : List τ} (h : (ts ++ us)[i]? = some t) :
    ts[i]? = some t ∨ t ∈ us := by
  by_cases hi : i < ts.length
  · rw [List.getElem?_append_left hi] at h
    exact Or.inl h
  · rw [List.getElem?_append_right (not_lt.1 hi)] at h
    exact Or.inr (List.mem_of_getElem? h)

/-- An element keeps its key, gives it up, or takes one that no other element holds. -/
theorem ExclusiveAt.set (h : ExclusiveAt live key ts) {i : ℕ} {t t' : τ} (ht : ts[i]? = some t)
    (hkey : ∀ k, live i → key t' = some k →
      key t = some k ∨ ∀ (j : ℕ) (u : τ), live j → ts[j]? = some u → key u ≠ some k) :
    ExclusiveAt live key (ts.set i t') := by
  intro a b u v k ha hb hu hv hku hkv
  rcases getElem?_set_cases hu with ⟨rfl, rfl⟩ | ⟨-, hu'⟩ <;>
    rcases getElem?_set_cases hv with ⟨rfl, rfl⟩ | ⟨-, hv'⟩
  · rfl
  · rcases hkey k ha hku with hk | hnone
    · exact h a b t v k ha hb ht hv' hk hkv
    · exact absurd hkv (hnone b v hb hv')
  · rcases hkey k hb hkv with hk | hnone
    · exact h a b u t k ha hb hu' ht hku hk
    · exact absurd hku (hnone a u ha hu')
  · exact h a b u v k ha hb hu' hv' hku hkv

theorem Exclusive.set (h : Exclusive key ts) {i : ℕ} {t t' : τ} (ht : ts[i]? = some t)
    (hkey : ∀ k, key t' = some k → key t = some k ∨ ∀ u ∈ ts, key u ≠ some k) :
    Exclusive key (ts.set i t') :=
  exclusive_iff.2 ((exclusive_iff.1 h).set ht fun k _ hk =>
    (hkey k hk).imp_right fun hnone _ u _ hu => hnone u (List.mem_of_getElem? hu))

/-- New elements hold no keys. -/
theorem ExclusiveAt.append (h : ExclusiveAt live key ts) {us : List τ}
    (hus : ∀ u ∈ us, key u = none) : ExclusiveAt live key (ts ++ us) := by
  have hold {a : ℕ} {u : τ} {k : κ} (hu : (ts ++ us)[a]? = some u) (hk : key u = some k) :
      ts[a]? = some u := by
    rcases getElem?_append_cases hu with hu | hu
    · exact hu
    · rw [hus u hu] at hk
      cases hk
  intro a b u v k ha hb hu hv hku hkv
  exact h a b u v k ha hb (hold hu hku) (hold hv hkv) hku hkv

theorem Exclusive.append (h : Exclusive key ts) {us : List τ} (hus : ∀ u ∈ us, key u = none) :
    Exclusive key (ts ++ us) :=
  exclusive_iff.2 ((exclusive_iff.1 h).append hus)

theorem Exclusive.tail {t : τ} (h : Exclusive key (t :: ts)) : Exclusive key ts := by
  intro a b u v k hu hv hku hkv
  exact Nat.succ.inj (h (a + 1) (b + 1) u v k hu hv hku hkv)

/-- Whoever yields something holds the key, so that no two elements yield. -/
theorem Exclusive.length_flatMap_le {α : Type} {f : τ → List α} {k : κ} (h : Exclusive key ts)
    (hone : ∀ t ∈ ts, (f t).length ≤ 1) (hkey : ∀ t ∈ ts, f t ≠ [] → key t = some k) :
    (ts.flatMap f).length ≤ 1 := by
  induction ts with
  | nil => exact Nat.zero_le 1
  | cons t ts ih =>
    rw [List.flatMap_cons]
    by_cases hnil : f t = []
    · rw [hnil, List.nil_append]
      exact ih h.tail (fun u hu => hone u (List.mem_cons_of_mem _ hu))
        fun u hu => hkey u (List.mem_cons_of_mem _ hu)
    · have hrest : ts.flatMap f = [] := by
        apply List.flatMap_eq_nil_iff.2
        intro u hu
        by_contra hyields
        obtain ⟨i, hi⟩ := List.getElem?_of_mem hu
        exact absurd (h 0 (i + 1) t u k rfl hi (hkey t List.mem_cons_self hnil)
          (hkey u (List.mem_cons_of_mem _ hu) hyields)) (Nat.succ_ne_zero i).symm
      rw [hrest, List.append_nil]
      exact hone t List.mem_cons_self

end exclusive

/-! ### Invariants -/

/-- What is known of a thread: a note per origin, updated by every operation it performs. -/
structure Monitor (S : System I) (N : Type) where
  start : S.Origin → N
  observe : N → (o : I.Op) → I.Answer o → N

namespace Monitor

variable {S : System I} {N : Type} (M : Monitor S N)

/-- The note of a thread with this origin and this past. -/
def after (g : S.Origin) (past : List (Event I)) : N :=
  past.foldr (fun e n => M.observe n e.op e.ans) (M.start g)

/-- The note of a thread. -/
def note (t : S.Thread) : N := M.after t.origin t.past

@[simp] theorem note_spawn (g : S.Origin) : M.note (S.spawn g) = M.start g := rfl

@[simp] theorem note_advance (t : S.Thread) (o : I.Op) (a : I.Answer o)
    (k : I.Answer o → Prog I S.Out) :
    M.note (t.advance o a k) = M.observe (M.note t) o a := rfl

/-- The protocol of a monitor: `allows` says which operations a note permits, `trusts` which
answers a thread with that note can rely on. -/
def protocol (allows : N → I.Op → Prop)
    (trusts : N → (o : I.Op) → I.Answer o → Prop) : Protocol I N where
  allows := allows
  next n o a n' := trusts n o a ∧ n' = M.observe n o a

/-- Every thread obeys the protocol from the note it has, and ends as `ends` says. -/
def Conforms (P : Protocol I N) (ends : S.Origin → Except I.Err S.Out → N → Prop)
    (s : S.State) : Prop :=
  ∀ t ∈ s.threads, t.rest.Obeys P (M.note t) (ends t.origin)

variable {M} {allows : N → I.Op → Prop} {trusts : N → (o : I.Op) → I.Answer o → Prop}
  {ends : S.Origin → Except I.Err S.Out → N → Prop}

/-- One operation, and what is noted of it. -/
theorem obeys_step {o : I.Op} {n : N} {post : I.Answer o → N → Prop} (ho : allows n o)
    (hpost : ∀ a, trusts n o a → post a (M.observe n o a)) :
    (Prog.perform o).Obeys (M.protocol allows trusts) n post := by
  rw [Prog.obeys_perform]
  refine ⟨ho, ?_⟩
  rintro a n' ⟨htrust, rfl⟩
  exact hpost a htrust

theorem Conforms.allowed {s : S.State} {i : ℕ} {t : S.Thread} {o : I.Op}
    {k : I.Answer o → Prog I S.Out} (h : M.Conforms (M.protocol allows trusts) ends s)
    (ht : s.threads[i]? = some t) (hr : t.rest = .act o k) : allows (M.note t) o := by
  have hob := h t (List.mem_of_getElem? ht)
  rw [hr] at hob
  exact hob.1

/-- How a thread has ended. -/
theorem Conforms.ended {s : S.State} {P : Protocol I N} {t : S.Thread}
    {r : Except I.Err S.Out} (h : M.Conforms P ends s) (ht : t ∈ s.threads)
    (hr : t.rest = .ret r) : ends t.origin r (M.note t) := by
  have hob := h t ht
  rw [hr] at hob
  exact hob

theorem Conforms.act {s : S.State} {i : ℕ} {t : S.Thread} {o : I.Op}
    {k : I.Answer o → Prog I S.Out} {a : I.Answer o} {w : S.World}
    (h : M.Conforms (M.protocol allows trusts) ends s)
    (ht : s.threads[i]? = some t) (hr : t.rest = .act o k) (ha : trusts (M.note t) o a) :
    M.Conforms (M.protocol allows trusts) ends ⟨w, s.threads.set i (t.advance o a k)⟩ := by
  intro u hu
  rcases List.mem_or_eq_of_mem_set hu with hu | rfl
  · exact h u hu
  · have hob := h t (List.mem_of_getElem? ht)
    rw [hr] at hob
    rw [note_advance]
    exact hob.2 a _ ⟨ha, rfl⟩

theorem Conforms.spawn {P : Protocol I N} {s : S.State} {w : S.World} {gs : List S.Origin}
    (h : M.Conforms P ends s)
    (hprog : ∀ g, (S.program g).Obeys P (M.start g) (ends g)) :
    M.Conforms P ends ⟨w, s.threads ++ gs.map S.spawn⟩ := by
  intro u hu
  rcases List.mem_append.1 hu with hu | hu
  · exact h u hu
  · obtain ⟨g, _, rfl⟩ := List.mem_map.1 hu
    exact hprog g

end Monitor

/-- The threads obey a protocol, and every operation the protocol allows keeps `Inv`, as does
every step of the environment: then `Inv` holds along every run from a state in which it
holds. -/
theorem System.Reach.invariant {S : System I} {N : Type} {M : Monitor S N}
    {allows : N → I.Op → Prop} {trusts : N → (o : I.Op) → I.Answer o → Prop}
    {ends : S.Origin → Except I.Err S.Out → N → Prop}
    {P : S.State → S.Label → S.State → Prop} {Inv : S.State → Prop}
    (hprog : ∀ g, (S.program g).Obeys (M.protocol allows trusts) (M.start g) (ends g))
    (hact : ∀ s i t o k c a w, Inv s → s.threads[i]? = some t → t.rest = .act o k →
      allows (M.note t) o → S.exec s.world o c = some (a, w) →
      P s (.act i c) ⟨w, s.threads.set i (t.advance o a k)⟩ →
      trusts (M.note t) o a ∧ Inv ⟨w, s.threads.set i (t.advance o a k)⟩)
    (henv : ∀ s e w gs, Inv s → S.env s.world e = some (w, gs) →
      P s (.env e) ⟨w, s.threads ++ gs.map S.spawn⟩ → Inv ⟨w, s.threads ++ gs.map S.spawn⟩)
    {s s' : S.State} (h : Reach P s s') (hs : Inv s)
    (hc : M.Conforms (M.protocol allows trusts) ends s) :
    M.Conforms (M.protocol allows trusts) ends s' ∧ Inv s' := by
  induction h with
  | refl => exact ⟨hc, hs⟩
  | tail l _ hstep hP ih =>
    obtain ⟨hconf, hinv⟩ := ih
    cases l with
    | act i c =>
      obtain ⟨th, o, k, a, w, hth, hr, he, rfl⟩ := step_act_eq_some.1 hstep
      obtain ⟨htr, hinv'⟩ := hact _ i th o k c a w hinv hth hr (hconf.allowed hth hr) he hP
      exact ⟨hconf.act hth hr htr, hinv'⟩
    | env e =>
      obtain ⟨w, gs, he, rfl⟩ := step_env_eq_some.1 hstep
      exact ⟨hconf.spawn hprog, henv _ e w gs hinv he hP⟩

namespace System

variable {S : System I} {φ : I.Op → Prop} {P : S.State → S.Label → S.State → Prop}
  {s t : S.State}

/-- The monitor that remembers nothing. -/
def blind (S : System I) : Monitor S Unit := ⟨fun _ => (), fun _ _ _ => ()⟩

/-- Every thread performs only operations that satisfy `φ`. -/
abbrev AllOnly (φ : I.Op → Prop) (s : S.State) : Prop :=
  (blind S).Conforms ((blind S).protocol (fun _ o => φ o) fun _ _ _ => True)
    (fun _ _ _ => True) s

theorem blind_obeys (hprog : ∀ g, (S.program g).Only φ) (g : S.Origin) :
    (S.program g).Obeys ((blind S).protocol (fun _ o => φ o) fun _ _ _ => True) ()
      fun _ _ => True :=
  (hprog g).obeys (fun _ _ _ h => h) (fun _ _ _ _ _ _ _ => trivial) trivial

/-- `Reach.invariant` for programs of which only the operations they use are known. -/
theorem Reach.invariant_only {Inv : S.State → Prop} (hprog : ∀ g, (S.program g).Only φ)
    (hact : ∀ s i t o k c a w, Inv s → s.threads[i]? = some t → t.rest = .act o k → φ o →
      S.exec s.world o c = some (a, w) →
      P s (.act i c) ⟨w, s.threads.set i (t.advance o a k)⟩ →
      Inv ⟨w, s.threads.set i (t.advance o a k)⟩)
    (henv : ∀ s e w gs, Inv s → S.env s.world e = some (w, gs) →
      P s (.env e) ⟨w, s.threads ++ gs.map S.spawn⟩ → Inv ⟨w, s.threads ++ gs.map S.spawn⟩)
    (h : Reach P s t) (hs : Inv s) (hc : AllOnly φ s) : AllOnly φ t ∧ Inv t :=
  Reach.invariant (blind_obeys hprog)
    (fun s i t o k c a w hinv ht hr ho he hP =>
      ⟨trivial, hact s i t o k c a w hinv ht hr ho he hP⟩)
    henv h hs hc

/-- Whatever the steps, the threads keep to the operations of their programs. -/
theorem Reach.allOnly (hprog : ∀ g, (S.program g).Only φ) (h : Reach P s t)
    (hc : AllOnly φ s) : AllOnly φ t := by
  let Inv (_ : S.State) : Prop := True
  suffices h : AllOnly φ t ∧ Inv t from h.1
  exact Reach.invariant_only hprog (fun _ _ _ _ _ _ _ _ _ _ _ _ _ _ => trivial)
    (fun _ _ _ _ _ _ _ => trivial) h trivial hc

end System

end Concurrency
