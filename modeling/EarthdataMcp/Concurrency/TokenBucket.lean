import Mathlib.Tactic

/-!
# Token buckets

A bucket refills at a steady rate up to its capacity, and a grant takes one token out of it. How
many grants there are in an interval of time is bounded by what the bucket can hold and what flows
into it in that time.

* `Bucket.turn`: refill, and take a token if there is one;
* `Bucket.grants`, the times of the grants among a list of turns;
* `countP_grants_le`, the bound on the grants in an interval.
-/

namespace Concurrency

variable {K : Type*} [CommRing K] [LinearOrder K]

/-- The tokens that are left, and when they were counted. -/
structure Bucket (K : Type*) where
  tokens : K
  updated : K

namespace Bucket

section definitions

variable (rate capacity : K)

/-- The bucket at a later time. -/
def refill (b : Bucket K) (now : K) : Bucket K :=
  ⟨min capacity (b.tokens + (now - b.updated) * rate), now⟩

/-- Refill, and take a token if there is one: whether it was taken, and the bucket after that. -/
def turn (b : Bucket K) (now : K) : Bool × Bucket K :=
  let b := b.refill rate capacity now
  if 1 ≤ b.tokens then (true, ⟨b.tokens - 1, now⟩) else (false, b)

/-- The bucket after a list of turns. -/
def after (b : Bucket K) (times : List K) : Bucket K :=
  times.foldl (fun b now => (b.turn rate capacity now).2) b

/-- The times of the turns that a token was taken at. -/
def grants (b : Bucket K) : List K → List K
  | [] => []
  | now :: times =>
      let (granted, b') := b.turn rate capacity now
      (if granted then [now] else []) ++ b'.grants times

/-- There are between none and all tokens in the bucket. -/
def Bounded (capacity : K) (b : Bucket K) : Prop := 0 ≤ b.tokens ∧ b.tokens ≤ capacity

end definitions

variable {rate capacity : K} {b : Bucket K} {now : K}

@[simp] theorem updated_turn : (b.turn rate capacity now).2.updated = now := by
  unfold turn refill
  dsimp only
  split_ifs <;> rfl

variable (rate capacity b now) in
/-- What a turn takes out of the bucket was in it, or has flowed into it. -/
theorem tokens_turn_le : (b.turn rate capacity now).2.tokens +
    (if (b.turn rate capacity now).1 then 1 else 0) ≤ b.tokens + (now - b.updated) * rate := by
  have hrefill : (b.refill rate capacity now).tokens ≤ b.tokens + (now - b.updated) * rate :=
    min_le_right _ _
  unfold turn
  dsimp only
  split_ifs with hone <;> simp_all

variable (rate capacity b now) in
/-- What a turn takes out of the bucket and leaves in it is no more than it can hold. -/
theorem tokens_turn_le_capacity : (b.turn rate capacity now).2.tokens +
    (if (b.turn rate capacity now).1 then 1 else 0) ≤ capacity := by
  have hrefill : (b.refill rate capacity now).tokens ≤ capacity := min_le_left _ _
  unfold turn
  dsimp only
  split_ifs with hone <;> simp_all

variable (rate capacity b now) in
/-- A turn takes a token if there is one after the refill. -/
theorem turn_fst : (b.turn rate capacity now).1 = decide (1 ≤ (b.refill rate capacity now).tokens) := by
  unfold turn
  dsimp only
  split_ifs with hone
  · exact (decide_eq_true hone).symm
  · exact (decide_eq_false hone).symm

/-- A turn that takes no token leaves less than one. -/
theorem tokens_turn_lt (h : (b.turn rate capacity now).1 = false) :
    (b.turn rate capacity now).2.tokens < 1 := by
  unfold turn at h ⊢
  dsimp only at h ⊢
  split_ifs at h ⊢ with hone
  exact not_le.1 hone

/-- A grant is made at one of the turns. -/
theorem mem_of_mem_grants {times : List K} {t : K} (h : t ∈ b.grants rate capacity times) :
    t ∈ times := by
  induction times generalizing b with
  | nil => exact h
  | cons now times ih =>
    rcases List.mem_append.1 h with h | h
    · split_ifs at h
      · exact List.mem_cons.2 (Or.inl (List.mem_singleton.1 h))
      · cases h
    · exact List.mem_cons_of_mem _ (ih h)

theorem countP_cons_grants (p : K → Bool) (times : List K) :
    (b.grants rate capacity (now :: times)).countP p =
      (if (b.turn rate capacity now).1 ∧ p now then 1 else 0) +
        ((b.turn rate capacity now).2.grants rate capacity times).countP p := by
  have hcons : b.grants rate capacity (now :: times) =
      (if (b.turn rate capacity now).1 then [now] else []) ++
        (b.turn rate capacity now).2.grants rate capacity times := rfl
  rw [hcons, List.countP_append]
  congr 1
  by_cases hgranted : (b.turn rate capacity now).1 = true <;> by_cases hp : p now = true <;>
    simp [hgranted, hp]

variable [IsStrictOrderedRing K]

theorem Bounded.refill (h : b.Bounded capacity) (hrate : 0 ≤ rate) (hnow : b.updated ≤ now) :
    (b.refill rate capacity now).Bounded capacity := by
  have hflow : 0 ≤ (now - b.updated) * rate := mul_nonneg (sub_nonneg.2 hnow) hrate
  exact ⟨le_min (h.1.trans h.2) (add_nonneg h.1 hflow), min_le_left _ _⟩

theorem Bounded.turn (h : b.Bounded capacity) (hrate : 0 ≤ rate) (hnow : b.updated ≤ now) :
    (b.turn rate capacity now).2.Bounded capacity := by
  have hrefill := h.refill hrate hnow
  unfold Bucket.turn
  dsimp only
  split_ifs with hone
  · exact ⟨sub_nonneg.2 hone, (sub_le_self _ zero_le_one).trans hrefill.2⟩
  · exact hrefill

theorem Bounded.after {times : List K} (h : b.Bounded capacity) (hrate : 0 ≤ rate)
    (htimes : (b.updated :: times).Pairwise (· ≤ ·)) :
    (b.after rate capacity times).Bounded capacity := by
  induction times generalizing b with
  | nil => exact h
  | cons now times ih =>
    obtain ⟨hnow, hlater⟩ := List.pairwise_cons.1 htimes
    refine ih (h.turn hrate (hnow now List.mem_cons_self)) ?_
    rwa [updated_turn]

/-! ### Grants in an interval -/

/-- Up to a time, there are no more grants than tokens in the bucket and flowing into it. -/
theorem countP_grants_le_tokens {times : List K} {stop : K} (h : b.Bounded capacity)
    (hrate : 0 ≤ rate) (htimes : (b.updated :: times).Pairwise (· ≤ ·)) (hstop : b.updated ≤ stop) :
    ((b.grants rate capacity times).countP fun t => t ≤ stop : K) ≤
      b.tokens + (stop - b.updated) * rate := by
  induction times generalizing b with
  | nil =>
    have hflow : 0 ≤ (stop - b.updated) * rate := mul_nonneg (sub_nonneg.2 hstop) hrate
    simpa [grants] using add_nonneg h.1 hflow
  | cons now times ih =>
    obtain ⟨hnow, hlater⟩ := List.pairwise_cons.1 htimes
    have hbefore := hnow now List.mem_cons_self
    have hbounded := h.turn hrate hbefore
    by_cases hle : now ≤ stop
    · have hrest := ih hbounded (by rwa [updated_turn]) (by rwa [updated_turn])
      have hhead := tokens_turn_le rate capacity b now
      rw [countP_cons_grants, updated_turn] at *
      simp only [hle, decide_true, and_true, Nat.cast_add, Nat.cast_ite, Nat.cast_one,
        Nat.cast_zero]
      linarith
    · -- every later turn is out of reach as well
      have hnone : (b.grants rate capacity (now :: times)).countP (fun t => t ≤ stop) = 0 := by
        refine List.countP_eq_zero.2 fun t ht => ?_
        have hlate : now ≤ t := by
          rcases List.mem_cons.1 (mem_of_mem_grants ht) with rfl | hmem
          · exact le_rfl
          · exact (List.pairwise_cons.1 hlater).1 t hmem
        simpa using (not_le.1 hle).trans_le hlate
      have hflow : 0 ≤ (stop - b.updated) * rate := mul_nonneg (sub_nonneg.2 hstop) hrate
      rw [hnone, Nat.cast_zero]
      exact add_nonneg h.1 hflow

/-- In an interval, there are no more grants than a full bucket and what flows into it allow. -/
theorem countP_grants_le {times : List K} {start stop : K} (h : b.Bounded capacity)
    (hrate : 0 ≤ rate) (htimes : (b.updated :: times).Pairwise (· ≤ ·)) (hle : start ≤ stop) :
    ((b.grants rate capacity times).countP fun t => start ≤ t ∧ t ≤ stop : K) ≤
      capacity + (stop - start) * rate := by
  have hflow : 0 ≤ (stop - start) * rate := mul_nonneg (sub_nonneg.2 hle) hrate
  induction times generalizing b with
  | nil => simpa [grants] using add_nonneg (h.1.trans h.2) hflow
  | cons now times ih =>
    obtain ⟨hnow, hlater⟩ := List.pairwise_cons.1 htimes
    have hbounded := h.turn hrate (hnow now List.mem_cons_self)
    have hlater' : ((b.turn rate capacity now).2.updated :: times).Pairwise (· ≤ ·) := by
      rwa [updated_turn]
    rw [countP_cons_grants]
    by_cases hstart : start ≤ now
    · by_cases hstop : now ≤ stop
      · -- the first turn of the interval: the bucket was full at best
        have hhead := tokens_turn_le_capacity rate capacity b now
        have hupdated : (b.turn rate capacity now).2.updated ≤ stop := by rwa [updated_turn]
        have hrest := countP_grants_le_tokens hbounded hrate hlater' hupdated
        have hmono := List.countP_mono_left (l := (b.turn rate capacity now).2.grants rate capacity
          times) fun t _ (ht : decide (start ≤ t ∧ t ≤ stop) = true) =>
            show decide (t ≤ stop) = true from decide_eq_true (of_decide_eq_true ht).2
        have hcast := (Nat.cast_le (α := K)).2 hmono
        have hwindow : (stop - now) * rate ≤ (stop - start) * rate :=
          mul_le_mul_of_nonneg_right (sub_le_sub_left hstart _) hrate
        rw [updated_turn] at hrest
        simp only [hstart, hstop, and_self, decide_true, and_true, Nat.cast_add, Nat.cast_ite,
          Nat.cast_one, Nat.cast_zero]
        linarith
      · have hrest := ih hbounded hlater'
        simpa [hstop] using hrest
    · have hrest := ih hbounded hlater'
      simpa [hstart] using hrest

end Bucket

end Concurrency
