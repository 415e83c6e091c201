import EarthdataMcp.Concurrency.TokenBucket

/-!
# The rate limiter of a provider

Whoever acquires a token holds the limiter's lock until it is granted one, and sleeps while the
bucket is empty. Clock readings are exact.

* `AsyncRateLimiter.step`: a turn of the loop of `acquire`, or a sleeper that is cancelled;
* `AsyncRateLimiter.run`, any sequence of these on a clock that does not run backwards;
* `RateBounded` and `rateBounded_of_run`: what holds after every run.
-/

namespace EarthdataMcp

open Concurrency

/-- A limiter; `sleeper` is the task that holds the lock, and how long it has to sleep. -/
structure AsyncRateLimiter where
  rate : ℚ
  capacity : ℚ
  bucket : Bucket ℚ
  sleeper : Option (ℕ × ℚ) := none

/-- What happens to a limiter: a task takes a turn of the loop, with this clock reading, or a
sleeping task is cancelled and lets go of the lock. -/
inductive LimiterStep
  | turn (task : ℕ) (now : ℚ)
  | cancel (task : ℕ)

namespace AsyncRateLimiter

/-- The constructor; nothing if it raises. -/
def create (ratePerSec : ℚ) (burst : Option ℚ) (now : ℚ) : Option AsyncRateLimiter :=
  if ratePerSec ≤ 0 then none
  else
    let capacity := burst.getD (max ratePerSec 1)
    some { rate := ratePerSec, capacity := capacity, bucket := ⟨capacity, now⟩ }

/-- A turn of the loop of `acquire`: whether a token is granted, and the limiter after that. -/
def turn (l : AsyncRateLimiter) (task : ℕ) (now : ℚ) : Bool × AsyncRateLimiter :=
  let (granted, bucket) := l.bucket.turn l.rate l.capacity now
  if granted then (true, { l with bucket := bucket, sleeper := none })
  else (false, { l with bucket := bucket, sleeper := some (task, (1 - bucket.tokens) / l.rate) })

/-- One step; nothing if another task holds the lock, or if the clock would run backwards. -/
def step (l : AsyncRateLimiter) : LimiterStep → Option AsyncRateLimiter
  | .turn task now =>
      if l.bucket.updated ≤ now ∧ ∀ s ∈ l.sleeper, s.1 = task then some (l.turn task now).2
      else none
  | .cancel task => if l.sleeper.map Prod.fst = some task then some { l with sleeper := none }
      else none

/-- A sequence of steps. -/
def run (l : AsyncRateLimiter) : List LimiterStep → Option AsyncRateLimiter
  | [] => some l
  | o :: steps => (l.step o).bind fun l' => l'.run steps

/-- The clock readings at which tokens are granted in a sequence of steps. -/
def grants (l : AsyncRateLimiter) : List LimiterStep → List ℚ
  | [] => []
  | .turn task now :: steps =>
      (if (l.turn task now).1 then [now] else []) ++ (l.turn task now).2.grants steps
  | .cancel _ :: steps => grants { l with sleeper := none } steps

/-- How many tokens are granted in an interval. -/
def grantsBetween (l : AsyncRateLimiter) (steps : List LimiterStep) (start stop : ℚ) : ℕ :=
  (l.grants steps).countP fun t => start ≤ t ∧ t ≤ stop

end AsyncRateLimiter

/-- The tokens that are there at a clock reading, refilled at a rate up to a capacity. -/
def AsyncRateLimiter.tokensAt (l : AsyncRateLimiter) (rate capacity now : ℚ) : ℚ :=
  min capacity (l.bucket.tokens + (now - l.bucket.updated) * rate)

/-- What holds when a limiter has come from its construction to `l`: a token that is there is
granted, a task that finds none sleeps for as long as the missing part of it takes to refill, and
whoever has slept for that long is granted its token. -/
structure RateBounded (l₀ : AsyncRateLimiter) (steps : List LimiterStep) (l : AsyncRateLimiter) :
    Prop where
  tokens : 0 ≤ l.bucket.tokens ∧ l.bucket.tokens ≤ l₀.capacity
  grants : ∀ task now, 1 ≤ l.tokensAt l₀.rate l₀.capacity now →
    (l.turn task now).1 = true ∧
      (l.turn task now).2.bucket = ⟨l.tokensAt l₀.rate l₀.capacity now - 1, now⟩ ∧
      (l.turn task now).2.sleeper = none
  sleeps : ∀ task now, l.tokensAt l₀.rate l₀.capacity now < 1 →
    (l.turn task now).1 = false ∧
      (l.turn task now).2.bucket = ⟨l.tokensAt l₀.rate l₀.capacity now, now⟩ ∧
      (l.turn task now).2.sleeper =
        some (task, (1 - l.tokensAt l₀.rate l₀.capacity now) / l₀.rate)
  window : ∀ start stop, start ≤ stop →
    (l₀.grantsBetween steps start stop : ℚ) ≤ l₀.capacity + l₀.rate * (stop - start)
  wakes : ∀ task sleep now, l.sleeper = some (task, sleep) → l.bucket.updated + sleep ≤ now →
    l.step (.turn task now) = some (l.turn task now).2 ∧ (l.turn task now).1 = true

/-! ### Runs -/

section runs

variable {l l' : AsyncRateLimiter} {steps : List LimiterStep}

/-- The clock readings of a sequence of steps. -/
def LimiterStep.readings : List LimiterStep → List ℚ
  | [] => []
  | .turn _ now :: steps => now :: readings steps
  | .cancel _ :: steps => readings steps

/-- The bucket of a limiter takes the turns of its tasks. -/
structure SameBucket (l : AsyncRateLimiter) (steps : List LimiterStep) (l' : AsyncRateLimiter) :
    Prop where
  rate : l'.rate = l.rate
  capacity : l'.capacity = l.capacity
  bucket : l'.bucket = l.bucket.after l.rate l.capacity (LimiterStep.readings steps)
  grants : l.grants steps = l.bucket.grants l.rate l.capacity (LimiterStep.readings steps)
  sorted : (l.bucket.updated :: LimiterStep.readings steps).Pairwise (· ≤ ·)

theorem turn_eq (l : AsyncRateLimiter) (task : ℕ) (now : ℚ) :
    (l.turn task now).1 = (l.bucket.turn l.rate l.capacity now).1 ∧
      (l.turn task now).2.bucket = (l.bucket.turn l.rate l.capacity now).2 ∧
      (l.turn task now).2.rate = l.rate ∧ (l.turn task now).2.capacity = l.capacity := by
  unfold AsyncRateLimiter.turn
  dsimp only
  split_ifs with hgranted
  · exact ⟨hgranted.symm, rfl, rfl, rfl⟩
  · exact ⟨(Bool.eq_false_iff.2 hgranted).symm, rfl, rfl, rfl⟩

theorem sameBucket_of_run (h : l.run steps = some l') : SameBucket l steps l' := by
  induction steps generalizing l with
  | nil =>
    obtain rfl := Option.some.inj h
    exact ⟨rfl, rfl, rfl, rfl, List.pairwise_singleton _ _⟩
  | cons o steps ih =>
    obtain ⟨l₁, hstep, hrun⟩ := Option.bind_eq_some_iff.1 h
    have hrest := ih hrun
    cases o with
    | turn task now =>
      unfold AsyncRateLimiter.step at hstep
      dsimp only at hstep
      split_ifs at hstep with hallowed
      obtain rfl := Option.some.inj hstep
      obtain ⟨hgranted, hbucket, hrate, hcapacity⟩ := turn_eq l task now
      obtain ⟨hrate', hcapacity', hafter, hgrants, hsorted⟩ := hrest
      rw [hrate, hcapacity, hbucket] at hafter hgrants
      rw [hbucket, Bucket.updated_turn] at hsorted
      refine ⟨hrate'.trans hrate, hcapacity'.trans hcapacity, hafter, ?_, ?_⟩
      · show _ ++ _ = _
        rw [hgranted, hgrants]
        rfl
      · refine List.Pairwise.cons (fun t ht => ?_) hsorted
        rcases List.mem_cons.1 ht with rfl | ht
        · exact hallowed.1
        · exact hallowed.1.trans ((List.pairwise_cons.1 hsorted).1 t ht)
    | cancel task =>
      unfold AsyncRateLimiter.step at hstep
      dsimp only at hstep
      split_ifs at hstep
      obtain rfl := Option.some.inj hstep
      exact ⟨hrest.rate, hrest.capacity, hrest.bucket, hrest.grants, hrest.sorted⟩

theorem turn_of_one_le {task : ℕ} {now : ℚ} (h : 1 ≤ l.tokensAt l.rate l.capacity now) :
    l.turn task now =
      (true, { l with bucket := ⟨l.tokensAt l.rate l.capacity now - 1, now⟩, sleeper := none }) := by
  unfold AsyncRateLimiter.tokensAt at h ⊢
  simp [AsyncRateLimiter.turn, Bucket.turn, Bucket.refill, h]

theorem turn_of_lt_one {task : ℕ} {now : ℚ} (h : l.tokensAt l.rate l.capacity now < 1) :
    l.turn task now =
      (false, { l with
        bucket := ⟨l.tokensAt l.rate l.capacity now, now⟩
        sleeper := some (task, (1 - l.tokensAt l.rate l.capacity now) / l.rate) }) := by
  have hnot := not_le.2 h
  unfold AsyncRateLimiter.tokensAt at hnot ⊢
  simp [AsyncRateLimiter.turn, Bucket.turn, Bucket.refill, hnot]

/-- A sleeper has less than one token, and has to sleep until the rest of it has refilled. -/
def SleepsEnough (l : AsyncRateLimiter) : Prop :=
  ∀ task sleep, l.sleeper = some (task, sleep) →
    l.bucket.tokens < 1 ∧ sleep = (1 - l.bucket.tokens) / l.rate

theorem sleepsEnough_turn (l : AsyncRateLimiter) (task : ℕ) (now : ℚ) :
    SleepsEnough (l.turn task now).2 := by
  intro task' sleep hsleeper
  unfold AsyncRateLimiter.turn at hsleeper ⊢
  dsimp only at hsleeper ⊢
  split_ifs at hsleeper ⊢ with hgranted
  have hsleep := (Prod.mk.inj (Option.some.inj hsleeper)).2
  exact ⟨Bucket.tokens_turn_lt (Bool.eq_false_iff.2 hgranted), hsleep.symm⟩

theorem sleepsEnough_of_run (hl : SleepsEnough l) (h : l.run steps = some l') :
    SleepsEnough l' := by
  induction steps generalizing l with
  | nil =>
    obtain rfl := Option.some.inj h
    exact hl
  | cons o steps ih =>
    obtain ⟨l₁, hstep, hrun⟩ := Option.bind_eq_some_iff.1 h
    refine ih ?_ hrun
    cases o with
    | turn task now =>
      unfold AsyncRateLimiter.step at hstep
      dsimp only at hstep
      split_ifs at hstep
      obtain rfl := Option.some.inj hstep
      exact sleepsEnough_turn l task now
    | cancel task =>
      unfold AsyncRateLimiter.step at hstep
      dsimp only at hstep
      split_ifs at hstep
      obtain rfl := Option.some.inj hstep
      intro task' sleep hsleeper
      cases hsleeper

/-- Whoever has slept long enough is granted a token. -/
theorem granted_of_slept {task : ℕ} {sleep now : ℚ} (hrate : 0 < l.rate) (hcapacity : 1 ≤ l.capacity)
    (hl : SleepsEnough l) (hsleeper : l.sleeper = some (task, sleep))
    (hslept : l.bucket.updated + sleep ≤ now) :
    l.step (.turn task now) = some (l.turn task now).2 ∧ (l.turn task now).1 = true := by
  obtain ⟨hless, rfl⟩ := hl task sleep hsleeper
  have hmissing : 1 - l.bucket.tokens ≤ (now - l.bucket.updated) * l.rate := by
    rw [← div_le_iff₀ hrate]
    linarith
  have hlater : l.bucket.updated ≤ now := by
    have hsleep : 0 ≤ (1 - l.bucket.tokens) / l.rate := div_nonneg (by linarith) hrate.le
    linarith
  constructor
  · refine if_pos ⟨hlater, fun s hs => ?_⟩
    rw [hsleeper] at hs
    obtain rfl := Option.some.inj hs
    rfl
  · rw [(turn_eq l task now).1, Bucket.turn_fst]
    exact decide_eq_true (le_min hcapacity (by linarith))

end runs

/-- For every positive rate and the capacity that goes with it, after every sequence of steps on a
clock that does not run backwards. -/
theorem rateBounded_of_run {ratePerSec created : ℚ} {l₀ l : AsyncRateLimiter}
    {steps : List LimiterStep} (hcreate : AsyncRateLimiter.create ratePerSec none created = some l₀)
    (hrun : l₀.run steps = some l) : RateBounded l₀ steps l := by
  unfold AsyncRateLimiter.create at hcreate
  split_ifs at hcreate with hpositive
  obtain rfl := Option.some.inj hcreate
  have hrate : 0 < ratePerSec := not_le.1 hpositive
  have hcapacity : 1 ≤ max ratePerSec 1 := le_max_right _ _
  have hfull : Bucket.Bounded (max ratePerSec 1) ⟨max ratePerSec 1, created⟩ :=
    ⟨zero_le_one.trans hcapacity, le_rfl⟩
  obtain ⟨hrate', hcapacity', hbucket, hgrants, hsorted⟩ := sameBucket_of_run hrun
  constructor
  case tokens =>
    rw [hbucket]
    exact hfull.after hrate.le hsorted
  case grants =>
    intro task now hone
    rw [← hrate', ← hcapacity'] at hone ⊢
    rw [turn_of_one_le hone]
    exact ⟨rfl, rfl, rfl⟩
  case sleeps =>
    intro task now hless
    rw [← hrate', ← hcapacity'] at hless ⊢
    rw [turn_of_lt_one hless]
    exact ⟨rfl, rfl, rfl⟩
  case window =>
    intro start stop hle
    unfold AsyncRateLimiter.grantsBetween
    rw [hgrants, mul_comm]
    exact Bucket.countP_grants_le hfull hrate.le hsorted hle
  case wakes =>
    intro task sleep now hsleeper hslept
    refine granted_of_slept ?_ ?_ (sleepsEnough_of_run ?_ hrun) hsleeper hslept
    · rw [hrate']
      exact hrate
    · rw [hcapacity']
      exact hcapacity
    · intro task' sleep' hnone
      cases hnone

/-- Two tasks at a rate of one: the second one sleeps until its token is there. -/
theorem rateBounded_of_run_two : ∃ l₀ l : AsyncRateLimiter,
    AsyncRateLimiter.create 1 none 0 = some l₀ ∧
      l₀.run [.turn 0 0, .turn 1 (1 / 2), .turn 1 1] = some l ∧
      RateBounded l₀ [.turn 0 0, .turn 1 (1 / 2), .turn 1 1] l := by
  have hruns : ((AsyncRateLimiter.create 1 none 0).bind fun l₀ =>
      l₀.run [.turn 0 0, .turn 1 (1 / 2), .turn 1 1]).isSome = true := by decide +kernel
  obtain ⟨l, hl⟩ := Option.isSome_iff_exists.1 hruns
  obtain ⟨l₀, hcreate, hrun⟩ := Option.bind_eq_some_iff.1 hl
  exact ⟨l₀, l, hcreate, hrun, rateBounded_of_run hcreate hrun⟩

end EarthdataMcp
