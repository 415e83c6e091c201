import Mathlib.Tactic
import Mathlib.Algebra.Order.BigOperators.Group.Finset
import Mathlib.Data.List.Perm.Basic

/-!
# Reclaiming by fair share

Items have a size and an owner, and some are exempt.  While the items are over a cap, one that
is not exempt is taken from the owner that holds most among those that still have such an item.

* `bytes` and `holding`, what the items weigh in total and for one owner;
* `shares_agree_iff`: when a share that goes by some of the items is the share that goes by all;
* `Reclaims`, the runs of this procedure, and what holds when one ends (`Reclaims.stopped`)
  and at each taking (`Reclaims.needed`, `Reclaims.fair`);
* `Reclaims.spares`: with no exempt item, an owner within its share loses nothing.
-/

namespace FairShare

variable {ι ω : Type} (size : ι → ℕ) (owner : ι → ω)

/-- The size of the items in total. -/
def bytes (items : List ι) : ℕ := (items.map size).sum

@[simp] theorem bytes_nil : bytes size [] = 0 := rfl

@[simp] theorem bytes_cons (a : ι) (items : List ι) :
    bytes size (a :: items) = size a + bytes size items := by
  simp [bytes]

@[simp] theorem bytes_append (items items' : List ι) :
    bytes size (items ++ items') = bytes size items + bytes size items' := by
  simp [bytes]

theorem bytes_perm {items items' : List ι} (h : items.Perm items') :
    bytes size items = bytes size items' :=
  (h.map size).sum_eq

/-- What is covered, item by item, by larger items with the same keys weighs no more than they do
together. -/
theorem bytes_le_of_covered {κ υ : Type} {key : ι → υ} {key' : κ → υ} {size : ι → ℕ}
    {size' : κ → ℕ} {items : List ι} {items' : List κ} (hnodup : (items.map key).Nodup)
    (h : ∀ a ∈ items, ∃ b ∈ items', key' b = key a ∧ size a ≤ size' b) :
    bytes size items ≤ bytes size' items' := by
  induction items generalizing items' with
  | nil => exact Nat.zero_le _
  | cons a items ih =>
    obtain ⟨hfresh, hnodup⟩ := List.nodup_cons.1 hnodup
    obtain ⟨b, hb, hkey, hle⟩ := h a List.mem_cons_self
    obtain ⟨before, after, rfl⟩ := List.append_of_mem hb
    have hperm : (before ++ b :: after).Perm (b :: (before ++ after)) := List.perm_middle
    rw [bytes_cons, bytes_perm size' hperm, bytes_cons]
    refine Nat.add_le_add hle (ih hnodup fun c hc => ?_)
    obtain ⟨d, hd, hkey', hle'⟩ := h c (List.mem_cons_of_mem _ hc)
    refine ⟨d, ?_, hkey', hle'⟩
    rcases List.mem_cons.1 (hperm.mem_iff.1 hd) with rfl | hd
    · -- the item that covers `a` has another key
      refine absurd (List.mem_map_of_mem (f := key) hc) ?_
      rw [← hkey', hkey]
      exact hfresh
    · exact hd

section holding

variable [DecidableEq ω]

/-- The size of what one owner has. -/
def holding (items : List ι) (w : ω) : ℕ := bytes size (items.filter fun a => owner a = w)

@[simp] theorem holding_nil (w : ω) : holding size owner [] w = 0 := rfl

theorem holding_cons (a : ι) (items : List ι) (w : ω) :
    holding size owner (a :: items) w =
      (if owner a = w then size a else 0) + holding size owner items w := by
  unfold holding
  by_cases h : owner a = w <;> simp [h]

theorem holding_perm {items items' : List ι} (h : items.Perm items') (w : ω) :
    holding size owner items w = holding size owner items' w :=
  bytes_perm size (h.filter _)

/-- An owner that holds something has an item. -/
theorem exists_of_holding_pos {items : List ι} {w : ω} (h : 0 < holding size owner items w) :
    ∃ a ∈ items, owner a = w := by
  by_contra hnone
  push Not at hnone
  have hempty : (items.filter fun a => owner a = w) = [] := by
    apply List.filter_eq_nil_iff.2
    intro a ha
    simpa using hnone a ha
  simp [holding, hempty] at h

/-- An owner holds nothing if none of its items has a size. -/
theorem holding_eq_zero_iff {items : List ι} {w : ω} :
    holding size owner items w = 0 ↔ ∀ a ∈ items, owner a = w → size a = 0 := by
  induction items with
  | nil => simp
  | cons a items ih =>
    rw [holding_cons, Nat.add_eq_zero_iff, ih, List.forall_mem_cons, ite_eq_right_iff]

/-- Items whose size has two parts. -/
theorem holding_add (size' : ι → ℕ) (items : List ι) (w : ω) :
    holding (fun a => size a + size' a) owner items w =
      holding size owner items w + holding size' owner items w := by
  induction items with
  | nil => rfl
  | cons a items ih =>
    rw [holding_cons, holding_cons, holding_cons, ih]
    split_ifs <;> omega

/-- Items that are left out weigh nothing. -/
theorem holding_filter (p : ι → Bool) (items : List ι) (w : ω) :
    holding size owner (items.filter p) w =
      holding (fun a => if p a then size a else 0) owner items w := by
  induction items with
  | nil => rfl
  | cons a items ih =>
    by_cases h : p a
    · rw [List.filter_cons_of_pos h, holding_cons, holding_cons, ih, if_pos h]
    · rw [List.filter_cons_of_neg h, holding_cons, ih, if_neg h, ite_self, zero_add]

/-- Items made of others, of which each keeps its owner. -/
theorem holding_filterMap {κ : Type} {size : ι → ℕ} {owner : ι → ω} {size' : κ → ℕ}
    {owner' : κ → ω} {f : κ → Option ι} {others : List κ}
    (hsize : ∀ x ∈ others, size' x = ((f x).map size).getD 0)
    (howner : ∀ x ∈ others, ∀ a ∈ f x, owner a = owner' x) (w : ω) :
    holding size owner (others.filterMap f) w = holding size' owner' others w := by
  induction others with
  | nil => rfl
  | cons x others ih =>
    rw [List.forall_mem_cons] at hsize howner
    rw [holding_cons, ← ih hsize.2 howner.2, hsize.1]
    cases hx : f x with
    | none => rw [List.filterMap_cons_none hx, Option.map_none, Option.getD_none, ite_self, zero_add]
    | some a =>
      rw [List.filterMap_cons_some hx, holding_cons, howner.1 a hx]
      rfl

/-- The holdings of all owners make up the total. -/
theorem sum_holding {owners : Finset ω} {items : List ι} (h : ∀ a ∈ items, owner a ∈ owners) :
    ∑ w ∈ owners, holding size owner items w = bytes size items := by
  induction items with
  | nil => simp
  | cons a items ih =>
    have hrest := ih fun b hb => h b (List.mem_cons_of_mem _ hb)
    simp only [holding_cons, Finset.sum_add_distrib, Finset.sum_ite_eq, hrest, bytes_cons]
    rw [if_pos (h a List.mem_cons_self)]

/-- Above the cap, some owner is above its share. -/
theorem exists_above_share {owners : Finset ω} {items : List ι} {cap : ℕ}
    (h : ∀ a ∈ items, owner a ∈ owners) (hover : cap < bytes size items) :
    ∃ w ∈ owners, cap < holding size owner items w * owners.card := by
  by_contra hnone
  push Not at hnone
  have hsum : ∑ w ∈ owners, holding size owner items w * owners.card ≤ ∑ _w ∈ owners, cap :=
    Finset.sum_le_sum hnone
  rw [← Finset.sum_mul, sum_holding size owner h, Finset.sum_const, smul_eq_mul,
    mul_comm] at hsum
  have hcard : 0 < owners.card := by
    rw [Finset.card_pos]
    by_contra hempty
    rw [Finset.not_nonempty_iff_eq_empty] at hempty
    cases items with
    | nil => simp at hover
    | cons a items => simpa [hempty] using h a List.mem_cons_self
  exact absurd (Nat.le_of_mul_le_mul_left hsum hcard) (by omega)

/-! ### Two measures of one cap -/

section measures

variable {seen unseen : ω → ℕ} {S T : Finset ω}

/-- For one cap: the two disagree just if what is seen fits and the whole does not. -/
theorem share_agrees_iff {w : ω} (hseen : w ∉ S → seen w = 0) (cap : ℕ) :
    (seen w * (insert w S).card ≤ cap ↔ (seen w + unseen w) * (S ∪ T).card ≤ cap) ↔
      ¬ (seen w * (insert w S).card ≤ cap ∧ cap < (seen w + unseen w) * (S ∪ T).card) := by
  have hle : seen w * (insert w S).card ≤ (seen w + unseen w) * (S ∪ T).card := by
    by_cases hw : w ∈ S
    · rw [Finset.insert_eq_of_mem hw]
      exact Nat.mul_le_mul (Nat.le_add_right _ _) (Finset.card_le_card Finset.subset_union_left)
    · rw [hseen hw, zero_mul]
      exact Nat.zero_le _
  constructor
  · rintro h ⟨hfits, hover⟩
    exact absurd (h.1 hfits) hover.not_ge
  · intro h
    constructor
    · intro hfits
      by_contra hover
      exact h ⟨hfits, not_le.1 hover⟩
    · exact hle.trans

/-- A share of the cap that goes by some of the items only, those seen, agrees with the share
that goes by all, whatever the cap: just if what is unseen weighs nothing, and adds no owner
to the ones that divide the cap. -/
theorem shares_agree_iff (hseen : ∀ w ∉ S, seen w = 0) (hunseen : ∀ w ∉ T, unseen w = 0)
    {R : ω → Prop} (hR : ∀ w ∈ S ∪ T, R w) :
    (∀ cap w, R w → (seen w * (insert w S).card ≤ cap ↔
      (seen w + unseen w) * (S ∪ T).card ≤ cap)) ↔
        ∀ w ∈ T, unseen w = 0 ∧ (w ∈ S ∨ ∀ v ∈ S, seen v = 0) := by
  constructor
  · intro h w hw
    have hequal (v : ω) (hv : R v) :
        seen v * (insert v S).card = (seen v + unseen v) * (S ∪ T).card :=
      eq_of_forall_ge_iff fun cap => h cap v hv
    constructor
    · by_contra hpos
      have hle : (insert w S).card ≤ (S ∪ T).card := by
        apply Finset.card_le_card
        intro v hv
        rcases Finset.mem_insert.1 hv with rfl | hv
        · exact Finset.mem_union_right _ hw
        · exact Finset.mem_union_left _ hv
      have hcard : 0 < (S ∪ T).card := Finset.card_pos.2 ⟨w, Finset.mem_union_right _ hw⟩
      have hless : seen w * (insert w S).card < (seen w + unseen w) * (S ∪ T).card :=
        calc seen w * (insert w S).card ≤ seen w * (S ∪ T).card := Nat.mul_le_mul_left _ hle
          _ < (seen w + unseen w) * (S ∪ T).card :=
            Nat.mul_lt_mul_of_pos_right (by omega) hcard
      exact hless.ne (hequal w (hR w (Finset.mem_union_right _ hw)))
    · by_contra hnot
      push Not at hnot
      obtain ⟨hwS, v, hvS, hpos⟩ := hnot
      have hless : S.card < (S ∪ T).card := by
        apply Finset.card_lt_card
        refine Finset.ssubset_iff_subset_ne.2 ⟨Finset.subset_union_left, fun heq => hwS ?_⟩
        rw [heq]
        exact Finset.mem_union_right _ hw
      have hv := hequal v (hR v (Finset.mem_union_left _ hvS))
      rw [Finset.insert_eq_of_mem hvS] at hv
      have hlt : seen v * S.card < (seen v + unseen v) * (S ∪ T).card :=
        calc seen v * S.card < seen v * (S ∪ T).card :=
              Nat.mul_lt_mul_of_pos_left hless (Nat.pos_of_ne_zero hpos)
          _ ≤ (seen v + unseen v) * (S ∪ T).card := Nat.mul_le_mul_right _ (Nat.le_add_right _ _)
      exact hlt.ne hv
  · intro h cap w _
    have hnothing : unseen w = 0 := by
      by_cases hw : w ∈ T
      · exact (h w hw).1
      · exact hunseen w hw
    rw [hnothing, Nat.add_zero]
    by_cases hzero : seen w = 0
    · rw [hzero, zero_mul, zero_mul]
    -- somebody seen weighs something, so every unseen owner is also a seen one
    have hwS : w ∈ S := by
      by_contra hw
      exact hzero (hseen w hw)
    have hsub : S ∪ T = S := by
      apply Finset.union_eq_left.2
      intro v hv
      rcases (h v hv).2 with hvS | hall
      · exact hvS
      · exact absurd (hall w hwS) hzero
    rw [hsub, Finset.insert_eq_of_mem hwS]

end measures

/-! ### Runs -/

variable (exempt : ι → Prop) (cap : ℕ)

/-- The runs that reclaim from the items: what is taken, in order, and what is left. -/
inductive Reclaims : List ι → List ι → List ι → Prop
  /-- The items fit, or all of them are exempt. -/
  | stop {items : List ι} (h : bytes size items ≤ cap ∨ ∀ a ∈ items, exempt a) :
      Reclaims items [] items
  /-- Above the cap, an item goes whose owner holds most. -/
  | take {items items' taken left : List ι} {a : ι} (hover : cap < bytes size items)
      (hitems : items.Perm (a :: items')) (hexempt : ¬ exempt a)
      (hmost : ∀ b ∈ items, ¬ exempt b →
        holding size owner items (owner b) ≤ holding size owner items (owner a))
      (h : Reclaims items' taken left) : Reclaims items (a :: taken) left

namespace Reclaims

variable {size owner exempt cap} {items taken left before after now : List ι} {a b : ι} {w : ω}

theorem perm (h : Reclaims size owner exempt cap items taken left) :
    items.Perm (taken ++ left) := by
  induction h with
  | stop h => exact .refl _
  | take hover hitems hexempt hmost h ih => exact hitems.trans (ih.cons _)

theorem not_exempt (h : Reclaims size owner exempt cap items taken left) (ha : a ∈ taken) :
    ¬ exempt a := by
  induction h with
  | stop h => cases ha
  | take hover hitems hexempt hmost h ih =>
    rcases List.mem_cons.1 ha with rfl | ha
    · exact hexempt
    · exact ih ha

/-- What is left fits, or is exempt. -/
theorem stopped (h : Reclaims size owner exempt cap items taken left) :
    bytes size left ≤ cap ∨ ∀ a ∈ left, exempt a := by
  induction h with
  | stop h => exact h
  | take hover hitems hexempt hmost h ih => exact ih

/-- The run at the point where an item is taken. -/
theorem taking (h : Reclaims size owner exempt cap items (before ++ a :: after) left) :
    ∃ now, items.Perm (before ++ now) ∧ cap < bytes size now ∧ ∀ b ∈ now, ¬ exempt b →
      holding size owner now (owner b) ≤ holding size owner now (owner a) := by
  induction before generalizing items with
  | nil =>
    cases h with
    | take hover hitems hexempt hmost h => exact ⟨items, .refl _, hover, hmost⟩
  | cons c before ih =>
    cases h with
    | take hover hitems hexempt hmost h =>
      obtain ⟨now, hnow, htaking⟩ := ih h
      exact ⟨now, hitems.trans (hnow.cons c), htaking⟩

/-- Nothing is taken needlessly: the items not taken before were above the cap. -/
theorem needed (h : Reclaims size owner exempt cap items (before ++ a :: after) left) :
    cap + bytes size before < bytes size items := by
  obtain ⟨now, hnow, hover, -⟩ := h.taking
  rw [bytes_perm size hnow, bytes_append]
  omega

/-- What is taken comes from an owner that holds most among those with an item to take. -/
theorem fair (h : Reclaims size owner exempt cap items (before ++ a :: after) left)
    (hnow : items.Perm (before ++ now)) (hb : b ∈ now) (hexempt : ¬ exempt b) :
    holding size owner now (owner b) ≤ holding size owner now (owner a) := by
  obtain ⟨now', hnow', -, hmost⟩ := h.taking
  have hperm : now.Perm now' := (List.perm_append_left_iff before).1 (hnow.symm.trans hnow')
  rw [holding_perm size owner hperm, holding_perm size owner hperm]
  exact hmost b (hperm.mem_iff.1 hb) hexempt

/-- With no exempt item, nothing is taken from an owner within its share. -/
theorem spares {owners : Finset ω} (h : Reclaims size owner exempt cap items taken left)
    (howners : ∀ a ∈ items, owner a ∈ owners) (hopen : ∀ a ∈ items, ¬ exempt a)
    (hshare : holding size owner items w * owners.card ≤ cap) (ha : a ∈ taken) :
    owner a ≠ w := by
  induction h with
  | stop h => cases ha
  | @take items items' taken left c hover hitems hexempt hmost h ih =>
    have hc : owner c ≠ w := by
      -- somebody is above the share, and what is above it is not empty
      rintro rfl
      obtain ⟨v, -, hv⟩ := exists_above_share size owner howners hover
      obtain ⟨b, hb, rfl⟩ := exists_of_holding_pos size owner
        (Nat.pos_of_ne_zero fun hzero => by rw [hzero, zero_mul] at hv; omega)
      have hle := Nat.mul_le_mul_right owners.card (hmost b hb (hopen b hb))
      omega
    rcases List.mem_cons.1 ha with rfl | ha
    · exact hc
    · have hsub (b : ι) (hb : b ∈ items') : b ∈ items :=
        hitems.mem_iff.2 (List.mem_cons_of_mem _ hb)
      apply ih (fun b hb => howners b (hsub b hb)) (fun b hb => hopen b (hsub b hb)) ?_ ha
      rw [holding_perm size owner hitems, holding_cons, if_neg hc, zero_add] at hshare
      exact hshare

end Reclaims

end holding

end FairShare
