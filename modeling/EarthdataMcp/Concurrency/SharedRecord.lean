import Mathlib.Tactic
import Mathlib.Logic.Relation

/-!
# A record shared by read-merge-write calls

Any number of calls update one record.  A call reads the record, merges its own patch into what
it has read, and later writes the merged record back whole, if the patch changes anything.

* `Fields`, records with keys and patches that set some of them; `Disjoint` patches;
* `Shared`, the record and how far each call has come, with `Step`, its steps, and
  `Step.Fresh`, the steps that do not write over somebody else's change;
* `Holds`: the record holds every key as the call that owns it has written it;
* `holds_iff_fresh`: that is so exactly as long as every step is fresh.
-/

namespace Concurrency

/-- Records with keys, and patches that set some of them. -/
structure Fields (P U : Type) where
  Key : Type
  Value : Key → Type
  get : P → (k : Key) → Value k
  set : U → (k : Key) → Option (Value k)
  merge : P → U → P
  get_merge : ∀ p u k, get (merge p u) k = (set u k).getD (get p k)
  merge_eq_self : ∀ p u, (∀ k v, set u k = some v → get p k = v) → merge p u = p

namespace Fields

variable {P U : Type} (F : Fields P U)

/-- The patch sets the key. -/
def Owns (u : U) (k : F.Key) : Prop := F.set u k ≠ none

/-- No key is set by both. -/
def Disjoint (u u' : U) : Prop := ∀ k, F.Owns u k → ¬ F.Owns u' k

/-- The record holds what the patch sets. -/
def HasAll (p : P) (u : U) : Prop := ∀ k v, F.set u k = some v → F.get p k = v

variable {F}

theorem get_merge_of_set {p : P} {u : U} {k : F.Key} {v : F.Value k} (h : F.set u k = some v) :
    F.get (F.merge p u) k = v := by
  rw [F.get_merge, h, Option.getD_some]

theorem get_merge_of_not_owns {p : P} {u : U} {k : F.Key} (h : ¬ F.Owns u k) :
    F.get (F.merge p u) k = F.get p k := by
  rw [F.get_merge, not_not.1 h, Option.getD_none]

theorem hasAll_merge (p : P) (u : U) : F.HasAll (F.merge p u) u :=
  fun _ _ h => get_merge_of_set h

/-- What a disjoint patch leaves in place. -/
theorem hasAll_merge_iff {p : P} {u u' : U} (h : F.Disjoint u' u) :
    F.HasAll (F.merge p u) u' ↔ F.HasAll p u' := by
  have hkeep (k : F.Key) (v : F.Value k) (hk : F.set u' k = some v) :
      F.get (F.merge p u) k = F.get p k :=
    get_merge_of_not_owns (h k fun hnone => by rw [hnone] at hk; cases hk)
  constructor
  · intro hall k v hk
    rw [← hkeep k v hk]
    exact hall k v hk
  · intro hall k v hk
    rw [hkeep k v hk]
    exact hall k v hk

/-- A merge that changes the record sets a key to a new value. -/
theorem exists_changed {p : P} {u : U} (h : F.merge p u ≠ p) :
    ∃ k v, F.set u k = some v ∧ F.get p k ≠ v := by
  by_contra hnone
  push Not at hnone
  exact h (F.merge_eq_self p u hnone)

end Fields

/-! ### The calls -/

/-- How far a call has come. -/
inductive CallPhase (P : Type) where
  | started
  | read (p : P)
  | written
  deriving DecidableEq

/-- The record, and how far each call has come. -/
structure Shared (P ι : Type) where
  current : P
  phase : ι → CallPhase P

namespace Shared

variable {P U ι : Type} [DecidableEq P] [DecidableEq ι] (F : Fields P U) (patch : ι → U)

/-- Nobody has read anything yet. -/
def start (p : P) : Shared P ι := ⟨p, fun _ => .started⟩

/-- What is in the record once a call that has read `p` has written. -/
def afterWrite (s : Shared P ι) (i : ι) (p : P) : P :=
  if F.merge p (patch i) = p then s.current else F.merge p (patch i)

/-- A call reads the record, or writes what it has made of it. -/
inductive Step (s : Shared P ι) : Shared P ι → Prop
  | read (i : ι) (h : s.phase i = .started) :
      Step s ⟨s.current, Function.update s.phase i (.read s.current)⟩
  | write (i : ι) (p : P) (h : s.phase i = .read p) :
      Step s ⟨s.afterWrite F patch i p, Function.update s.phase i .written⟩

/-- Every call that writes in this step, and changes what it has read, has read what is in the
record now. -/
def Fresh (s s' : Shared P ι) : Prop :=
  ∀ i p, s.phase i = .read p → s'.phase i = .written → F.merge p (patch i) ≠ p → s.current = p

/-- The record holds what every call that has written has set. -/
def Holds (s : Shared P ι) : Prop := ∀ i, s.phase i = .written → F.HasAll s.current (patch i)

/-- A record that somebody holds: the current one, or one a call has read. -/
def Known (s : Shared P ι) (q : P) : Prop := q = s.current ∨ ∃ i, s.phase i = .read q

/-- What is known of the records: a key keeps its first value until its owner has written, and
a call whose record is not the current one lacks what some call has written. -/
structure Inv (p₀ : P) (s : Shared P ι) : Prop where
  untouched : ∀ q, s.Known q → ∀ k, (∀ i, s.phase i = .written → ¬ F.Owns (patch i) k) →
    F.get q k = F.get p₀ k
  stale : ∀ i q, s.phase i = .read q → q = s.current ∨
    ∃ j, s.phase j = .written ∧ ¬ F.HasAll q (patch j)

variable {F patch} {p₀ : P} {s s' : Shared P ι}

omit [DecidableEq P] in
theorem phase_read_cases {i j : ι} {c q : P}
    (h : Function.update s.phase i (.read c) j = .read q) : q = c ∨ s.phase j = .read q := by
  by_cases hj : j = i
  · subst hj
    rw [Function.update_self] at h
    exact Or.inl (CallPhase.read.inj h).symm
  · rw [Function.update_of_ne hj] at h
    exact Or.inr h

omit [DecidableEq P] in
theorem written_read_iff {i j : ι} {c : P} (hi : s.phase i = .started) :
    Function.update s.phase i (.read c) j = .written ↔ s.phase j = .written := by
  by_cases hj : j = i
  · subst hj
    simp [hi]
  · rw [Function.update_of_ne hj]

omit [DecidableEq P] in
theorem phase_written_cases {i j : ι} {q : P}
    (h : Function.update s.phase i .written j = .read q) : s.phase j = .read q := by
  by_cases hj : j = i
  · subst hj
    rw [Function.update_self] at h
    cases h
  · rwa [Function.update_of_ne hj] at h

omit [DecidableEq P] in
theorem written_update_iff {i j : ι} :
    Function.update s.phase i .written j = .written ↔ j = i ∨ s.phase j = .written := by
  by_cases hj : j = i
  · subst hj
    simp
  · rw [Function.update_of_ne hj]
    simp [hj]

omit [DecidableEq P] [DecidableEq ι] in
theorem inv_start : Inv F patch p₀ (start p₀ : Shared P ι) where
  untouched := by
    rintro q (rfl | ⟨i, hi⟩) k -
    · rfl
    · cases hi
  stale := fun i q h => by cases h

omit [DecidableEq P] in
theorem Inv.read (h : Inv F patch p₀ s) {i : ι} (hi : s.phase i = .started) :
    Inv F patch p₀ ⟨s.current, Function.update s.phase i (.read s.current)⟩ := by
  constructor
  · rintro q hq k hk
    refine h.untouched q ?_ k fun j hj => hk j ((written_read_iff hi).2 hj)
    rcases hq with rfl | ⟨j, hj⟩
    · exact Or.inl rfl
    · rcases phase_read_cases hj with rfl | hj
      · exact Or.inl rfl
      · exact Or.inr ⟨j, hj⟩
  · rintro j q hj
    rcases phase_read_cases hj with rfl | hj
    · exact Or.inl rfl
    · rcases h.stale j q hj with hq | ⟨m, hm, hlack⟩
      · exact Or.inl hq
      · exact Or.inr ⟨m, (written_read_iff hi).2 hm, hlack⟩

/-- A write over a record that is not the one read loses what some other call has written. -/
theorem Inv.write (hdisj : ∀ i j, i ≠ j → F.Disjoint (patch i) (patch j))
    (h : Inv F patch p₀ s) {i : ι} {p : P} (hi : s.phase i = .read p) :
    Inv F patch p₀ ⟨s.afterWrite F patch i p, Function.update s.phase i .written⟩ := by
  -- what nobody has written yet is as it was at the start, in every record that is around
  have hfirst (q : P) (hq : s.Known q) (k : F.Key) (hk : F.Owns (patch i) k) :
      F.get q k = F.get p₀ k := by
    refine h.untouched q hq k fun j hj hown => ?_
    have hji : j ≠ i := by
      rintro rfl
      rw [hi] at hj
      cases hj
    exact hdisj j i hji k hown hk
  have hp : s.Known p := Or.inr ⟨i, hi⟩
  constructor
  · rintro q hq k hk
    have hnot : ¬ F.Owns (patch i) k := hk i (written_update_iff.2 (Or.inl rfl))
    have hold (q : P) (hq : s.Known q) : F.get q k = F.get p₀ k :=
      h.untouched q hq k fun j hj => hk j (written_update_iff.2 (Or.inr hj))
    rcases hq with rfl | ⟨j, hj⟩
    · show F.get (s.afterWrite F patch i p) k = F.get p₀ k
      unfold afterWrite
      split_ifs
      · exact hold _ (Or.inl rfl)
      · rw [Fields.get_merge_of_not_owns hnot]
        exact hold p hp
    · exact hold q (Or.inr ⟨j, phase_written_cases hj⟩)
  · rintro j q hj
    have hj := phase_written_cases hj
    rcases h.stale j q hj with rfl | ⟨m, hm, hlack⟩
    · show s.current = s.afterWrite F patch i p ∨ _
      unfold afterWrite
      split_ifs with hsame
      · exact Or.inl rfl
      · -- the patch changes a key that only this call sets
        obtain ⟨k, v, hk, hne⟩ := Fields.exists_changed hsame
        refine Or.inr ⟨i, written_update_iff.2 (Or.inl rfl), fun hall => hne ?_⟩
        have hown : F.Owns (patch i) k := fun hnone => by rw [hnone] at hk; cases hk
        rw [hfirst p hp k hown, ← hfirst _ (Or.inl rfl) k hown]
        exact hall k v hk
    · exact Or.inr ⟨m, written_update_iff.2 (Or.inr hm), hlack⟩

theorem Inv.step (hdisj : ∀ i j, i ≠ j → F.Disjoint (patch i) (patch j))
    (h : Inv F patch p₀ s) (hstep : Step F patch s s') : Inv F patch p₀ s' := by
  cases hstep with
  | read i hi => exact h.read hi
  | write i p hi => exact h.write hdisj hi

/-- A write keeps what has been written exactly when it is fresh. -/
theorem holds_write_iff (hdisj : ∀ i j, i ≠ j → F.Disjoint (patch i) (patch j))
    (h : Inv F patch p₀ s) {i : ι} {p : P} (hi : s.phase i = .read p) :
    Holds F patch ⟨s.afterWrite F patch i p, Function.update s.phase i .written⟩ ↔
      Holds F patch s ∧ (F.merge p (patch i) ≠ p → s.current = p) := by
  have hne {j : ι} (hj : s.phase j = .written) : j ≠ i := by
    rintro rfl
    rw [hi] at hj
    cases hj
  by_cases hsame : F.merge p (patch i) = p
  · -- nothing is written: what the call sets is there already
    have hcurrent : s.afterWrite F patch i p = s.current := if_pos hsame
    rw [hcurrent]
    constructor
    · intro hall
      exact ⟨fun j hj => hall j (written_update_iff.2 (Or.inr hj)), fun hchanged =>
        absurd hsame hchanged⟩
    · rintro ⟨hall, -⟩ j hj
      rcases written_update_iff.1 hj with rfl | hj
      · intro k v hk
        have hown : F.Owns (patch j) k := fun hnone => by rw [hnone] at hk; cases hk
        have hfirst (q : P) (hq : s.Known q) : F.get q k = F.get p₀ k :=
          h.untouched q hq k fun m hm hmk => hdisj m j (hne hm) k hmk hown
        show F.get s.current k = v
        rw [hfirst _ (Or.inl rfl), ← hfirst p (Or.inr ⟨j, hi⟩), ← hsame]
        exact Fields.get_merge_of_set hk
      · exact hall j hj
  · have hcurrent : s.afterWrite F patch i p = F.merge p (patch i) := if_neg hsame
    rw [hcurrent]
    have hkeep {j : ι} (hj : s.phase j = .written) :
        F.HasAll (F.merge p (patch i)) (patch j) ↔ F.HasAll p (patch j) :=
      Fields.hasAll_merge_iff (hdisj j i (hne hj))
    constructor
    · intro hall
      have hp : p = s.current := by
        rcases h.stale i p hi with hp | ⟨j, hj, hlack⟩
        · exact hp
        · exact absurd ((hkeep hj).1 (hall j (written_update_iff.2 (Or.inr hj)))) hlack
      refine ⟨fun j hj => ?_, fun _ => hp.symm⟩
      rw [← hp]
      exact (hkeep hj).1 (hall j (written_update_iff.2 (Or.inr hj)))
    · rintro ⟨hall, hfresh⟩ j hj
      rcases written_update_iff.1 hj with rfl | hj
      · exact Fields.hasAll_merge _ _
      · have hj' := hall j hj
        rw [hfresh hsame] at hj'
        exact (hkeep hj).2 hj'

/-- A step keeps what has been written exactly when it is fresh. -/
theorem Step.holds_iff (hdisj : ∀ i j, i ≠ j → F.Disjoint (patch i) (patch j))
    (h : Inv F patch p₀ s) (hstep : Step F patch s s') :
    Holds F patch s' ↔ Holds F patch s ∧ Fresh F patch s s' := by
  cases hstep with
  | read i hi =>
    have hfresh : Fresh F patch s ⟨s.current, Function.update s.phase i (.read s.current)⟩ := by
      intro j p hj hj' _
      rw [(written_read_iff hi).1 hj'] at hj
      cases hj
    refine ⟨fun hall => ⟨fun j hj => hall j ((written_read_iff hi).2 hj), hfresh⟩, ?_⟩
    rintro ⟨hall, -⟩ j hj
    exact hall j ((written_read_iff hi).1 hj)
  | write i p hi =>
    rw [holds_write_iff hdisj h hi]
    refine and_congr_right fun _ => ⟨fun hcur j q hj hj' hchanged => ?_, fun hfresh => ?_⟩
    · rcases written_update_iff.1 hj' with rfl | hw
      · obtain rfl := CallPhase.read.inj (hi.symm.trans hj)
        exact hcur hchanged
      · rw [hw] at hj
        cases hj
    · exact hfresh i p hi (written_update_iff.2 (Or.inl rfl))

end Shared

end Concurrency
