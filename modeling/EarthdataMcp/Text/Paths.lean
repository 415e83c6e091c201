import Mathlib.Tactic
import Mathlib.Data.List.DropRight

/-!
# Slash paths

Names that are paths of segments with a slash between them, as lists of characters, and the
comparisons that are made of them: of whole names up to a leading slash, and of last segments
without regard to case.

* `lastSegment`, and the two ways to take a name apart at it;
* `fqn`, the name with its leading slash;
* `Lowering`, a change of case that respects the segments, and the `leaf` of a name.
-/

namespace Text

/-! ### Segments -/

/-- What stands after the last slash. -/
def lastSegment (name : List Char) : List Char := name.rtakeWhile (· ≠ '/')

theorem lastSegment_of_notMem {name : List Char} (h : '/' ∉ name) : lastSegment name = name := by
  apply List.rtakeWhile_eq_self_iff.2
  intro c hc
  exact decide_eq_true fun heq => h (heq ▸ hc)

theorem notMem_lastSegment (name : List Char) : '/' ∉ lastSegment name := by
  intro h
  have hne : decide ('/' ≠ '/') = true := List.mem_rtakeWhile_imp (p := (· ≠ '/')) h
  exact of_decide_eq_true hne rfl

theorem lastSegment_append (a : List Char) {b : List Char} (hb : '/' ∉ b) :
    lastSegment (a ++ '/' :: b) = b := by
  have hrev : ∀ c ∈ b.reverse, decide (c ≠ '/') = true := by
    intro c hc
    exact decide_eq_true fun heq => hb (heq ▸ List.mem_reverse.1 hc)
  unfold lastSegment List.rtakeWhile
  rw [List.reverse_append, List.reverse_cons, List.append_assoc,
    List.takeWhile_append_of_pos hrev]
  simp

/-- A name with a slash ends in one and its last segment. -/
theorem eq_append_lastSegment {name : List Char} (h : '/' ∈ name) :
    ∃ a, name = a ++ '/' :: lastSegment name := by
  induction name with
  | nil => cases h
  | cons c name ih =>
    by_cases hname : '/' ∈ name
    · obtain ⟨a, ha⟩ := ih hname
      refine ⟨c :: a, ?_⟩
      rw [ha, ← List.cons_append, lastSegment_append _ (notMem_lastSegment name)]
    · obtain rfl : '/' = c := by
        rcases List.mem_cons.1 h with heq | hmem
        · exact heq
        · exact absurd hmem hname
      refine ⟨[], ?_⟩
      have hlast : lastSegment ('/' :: name) = name := lastSegment_append [] hname
      rw [hlast, List.nil_append]

/-- A name is cut in one way at its last slash. -/
theorem cut_last_unique {xs ys us vs : List Char} (hu : '/' ∉ us) (hv : '/' ∉ vs)
    (h : xs ++ '/' :: us = ys ++ '/' :: vs) : xs = ys ∧ us = vs := by
  have hus : us = vs := by
    rw [← lastSegment_append xs hu, h, lastSegment_append ys hv]
  subst hus
  exact ⟨List.append_cancel_right h, rfl⟩

/-! ### Fully-qualified names -/

/-- The name with a leading slash. -/
def fqn (name : List Char) : List Char := if name.head? = some '/' then name else '/' :: name

theorem head?_fqn (name : List Char) : (fqn name).head? = some '/' := by
  unfold fqn
  split_ifs with h
  · exact h
  · rfl

theorem notMem_fqn {c : Char} {name : List Char} (hc : c ≠ '/') (h : c ∉ name) : c ∉ fqn name := by
  unfold fqn
  split_ifs
  · exact h
  · rw [List.mem_cons, not_or]
    exact ⟨hc, h⟩

theorem fqn_of_head {name : List Char} (h : name.head? = some '/') : fqn name = name := if_pos h

@[simp] theorem fqn_fqn (name : List Char) : fqn (fqn name) = fqn name :=
  fqn_of_head (head?_fqn name)

@[simp] theorem lastSegment_fqn (name : List Char) : lastSegment (fqn name) = lastSegment name := by
  unfold fqn
  split_ifs
  · rfl
  · by_cases hslash : '/' ∈ name
    · obtain ⟨a, ha⟩ := eq_append_lastSegment hslash
      have hcut : '/' :: name = ('/' :: a) ++ '/' :: lastSegment name := by
        rw [List.cons_append, ← ha]
      rw [hcut, lastSegment_append _ (notMem_lastSegment name)]
    · rw [lastSegment_of_notMem hslash]
      exact lastSegment_append [] hslash

theorem lastSegment_eq_of_fqn {a b : List Char} (h : fqn a = fqn b) :
    lastSegment a = lastSegment b := by
  rw [← lastSegment_fqn a, h, lastSegment_fqn]

/-- Two names are the same but for a leading slash. -/
theorem fqn_eq_fqn_iff {a b : List Char} :
    fqn a = fqn b ↔
      a = b ∨ a = '/' :: b ∧ b.head? ≠ some '/' ∨ b = '/' :: a ∧ a.head? ≠ some '/' := by
  unfold fqn
  split_ifs with ha hb hb
  · constructor
    · exact Or.inl
    · rintro (h | ⟨-, h⟩ | ⟨-, h⟩)
      · exact h
      · exact absurd hb h
      · exact absurd ha h
  · constructor
    · exact fun h => Or.inr (Or.inl ⟨h, hb⟩)
    · rintro (rfl | ⟨h, -⟩ | ⟨-, h⟩)
      · exact absurd ha hb
      · exact h
      · exact absurd ha h
  · constructor
    · exact fun h => Or.inr (Or.inr ⟨h.symm, ha⟩)
    · rintro (rfl | ⟨-, h⟩ | ⟨h, -⟩)
      · exact absurd hb ha
      · exact absurd hb h
      · exact h.symm
  · constructor
    · exact fun h => Or.inl (List.cons.inj h).2
    · rintro (rfl | ⟨rfl, -⟩ | ⟨rfl, -⟩)
      · rfl
      · exact absurd rfl ha
      · exact absurd rfl hb

/-- The name without its leading slashes. -/
def stripSlashes (name : List Char) : List Char := name.dropWhile (· = '/')

theorem stripSlashes_of_head {name : List Char} (h : name.head? ≠ some '/') :
    stripSlashes name = name := by
  cases name with
  | nil => rfl
  | cons c name =>
    apply List.dropWhile_cons_of_neg
    intro hc
    exact h (congrArg some (of_decide_eq_true hc))

theorem stripSlashes_of_notMem {name : List Char} (h : '/' ∉ name) : stripSlashes name = name :=
  stripSlashes_of_head fun hhead => h (List.mem_of_head? hhead)

/-- A name that does not end in a slash loses none there. -/
theorem rdropWhile_of_last {name : List Char} (h : name.getLast? ≠ some '/') :
    name.rdropWhile (· = '/') = name := by
  rw [List.rdropWhile_eq_self_iff]
  intro hne hc
  apply h
  rw [List.getLast?_eq_some_getLast hne, of_decide_eq_true hc]

theorem lastSegment_stripSlashes (name : List Char) :
    lastSegment (stripSlashes name) = lastSegment name := by
  induction name with
  | nil => rfl
  | cons c name ih =>
    unfold stripSlashes at ih ⊢
    rw [List.dropWhile_cons]
    by_cases hc : c = '/'
    · subst hc
      rw [if_pos (decide_eq_true rfl), ih]
      by_cases hslash : '/' ∈ name
      · obtain ⟨a, ha⟩ := eq_append_lastSegment hslash
        have hcut : '/' :: name = ('/' :: a) ++ '/' :: lastSegment name := by
          rw [List.cons_append, ← ha]
        rw [hcut, lastSegment_append _ (notMem_lastSegment name)]
      · rw [lastSegment_of_notMem hslash]
        exact (lastSegment_append [] hslash).symm
    · rw [if_neg (by simpa using hc)]

/-! ### Case -/

/-- A change of case: it makes no slash and takes none away, and treats what stands before a
slash and what stands after it apart. -/
structure Lowering where
  lower : List Char → List Char
  slash : ∀ name, '/' ∈ lower name ↔ '/' ∈ name
  join : ∀ a b, lower (a ++ '/' :: b) = lower a ++ '/' :: lower b

namespace Lowering

variable (fold : Lowering)

/-- The last segment in lower case. -/
def leaf (name : List Char) : List Char := fold.lower (lastSegment name)

theorem notMem_leaf (name : List Char) : '/' ∉ fold.leaf name :=
  fun h => notMem_lastSegment name ((fold.slash _).1 h)

theorem leaf_of_notMem {name : List Char} (h : '/' ∉ name) : fold.leaf name = fold.lower name :=
  congrArg fold.lower (lastSegment_of_notMem h)

theorem leaf_eq_of_fqn {a b : List Char} (h : fqn a = fqn b) : fold.leaf a = fold.leaf b :=
  congrArg fold.lower (lastSegment_eq_of_fqn h)

/-- Names that agree in lower case have the same leaf. -/
theorem leaf_eq_of_lower {a b : List Char} (h : fold.lower a = fold.lower b) :
    fold.leaf a = fold.leaf b := by
  have hslash : '/' ∈ a ↔ '/' ∈ b := by
    rw [← fold.slash a, h, fold.slash]
  by_cases ha : '/' ∈ a
  · obtain ⟨xs, hxs⟩ := eq_append_lastSegment ha
    obtain ⟨ys, hys⟩ := eq_append_lastSegment (hslash.1 ha)
    rw [hxs, hys, fold.join, fold.join] at h
    exact (cut_last_unique (fold.notMem_leaf a) (fold.notMem_leaf b) h).2
  · rw [fold.leaf_of_notMem ha, fold.leaf_of_notMem fun hb => ha (hslash.2 hb), h]

/-- A leading slash is not lost. -/
theorem lower_cons_slash_ne (name : List Char) : fold.lower ('/' :: name) ≠ fold.lower name := by
  intro h
  have hjoin : fold.lower ('/' :: name) = fold.lower [] ++ '/' :: fold.lower name :=
    fold.join [] name
  have hlength := congrArg List.length (hjoin.symm.trans h)
  rw [List.length_append, List.length_cons] at hlength
  omega

/-- The change of case of the ASCII letters. -/
def ascii : Lowering where
  lower name := name.map Char.toLower
  slash name := by
    have hlower (c : Char) : c.toLower = '/' ↔ c = '/' := by
      unfold Char.toLower
      split_ifs with hupper
      · constructor
        · intro h
          have hval := congrArg Char.val h
          have hge := UInt32.le_iff_toNat_le.1 hupper.1
          have hle := UInt32.le_iff_toNat_le.1 hupper.2
          have hsum := congrArg UInt32.toNat hval
          simp at hge hle hsum
          omega
        · rintro rfl
          exact absurd hupper (by decide)
      · exact Iff.rfl
    simp only [List.mem_map, hlower, exists_eq_right]
  join a b := by simp

end Lowering

end Text
