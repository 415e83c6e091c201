import Mathlib.Data.List.DropRight
import Mathlib.Data.List.TakeWhile
import Mathlib.Tactic

/-!
# Texts made of fields

How a text that is put together from fields can be taken apart again: fields of a fixed width,
and fields that end at a delimiter they do not contain.

* `strip`, a text without the white space at its ends;
* `zeroPadded`, a number in a field of fixed width;
* `partition`, a text cut at the first delimiter, `RunsOn` and `cut_unique`;
* `pieces`, a list of fields cut at every delimiter, which is all that joining them leaves.
-/

namespace Text

/-! ### White space -/

/-- `c.isspace()`. -/
def isSpace (c : Char) : Prop :=
  c ∈ ['\t', '\n', '\x0b', '\x0c', '\r', '\x1c', '\x1d', '\x1e', '\x1f', ' ', '\u0085', '\u00a0',
    '\u1680', '\u2000', '\u2001', '\u2002', '\u2003', '\u2004', '\u2005', '\u2006', '\u2007',
    '\u2008', '\u2009', '\u200a', '\u2028', '\u2029', '\u202f', '\u205f', '\u3000']

instance : DecidablePred isSpace := fun _ => inferInstanceAs (Decidable (_ ∈ _))

/-- `text.lstrip()`. -/
def lstrip (text : List Char) : List Char := text.dropWhile fun c => isSpace c

theorem lstrip_of_head {text : List Char} (h : ∀ c ∈ text.head?, ¬ isSpace c) :
    lstrip text = text := by
  cases text with
  | nil => rfl
  | cons c text => exact List.dropWhile_cons_of_neg (by simpa using h c rfl)

/-- `text.strip()`. -/
def strip (text : List Char) : List Char := (lstrip (lstrip text).reverse).reverse

/-- No white space stands at either end. -/
structure Trimmed (text : List Char) : Prop where
  head : ∀ c ∈ text.head?, ¬ isSpace c
  last : ∀ c ∈ text.getLast?, ¬ isSpace c

theorem strip_of_trimmed {text : List Char} (h : Trimmed text) : strip text = text := by
  unfold strip
  have hlast : lstrip text.reverse = text.reverse := by
    apply lstrip_of_head
    rw [List.head?_reverse]
    exact h.last
  rw [lstrip_of_head h.head, hlast, List.reverse_reverse]

theorem head_lstrip (text : List Char) : ∀ c ∈ (lstrip text).head?, ¬ isSpace c := by
  intro c hc
  unfold lstrip at hc
  have h := List.head?_dropWhile_not (fun c => decide (isSpace c)) text
  rw [Option.mem_def.1 hc] at h
  simpa using h

theorem trimmed_strip (text : List Char) : Trimmed (strip text) := by
  constructor
  · intro c hc
    have hbegin : strip text <+: lstrip text := List.rdropWhile_prefix _ (lstrip text)
    obtain ⟨rest, hrest⟩ := hbegin
    apply head_lstrip text c
    rw [← hrest, List.head?_append, Option.mem_def.1 hc]
    rfl
  · intro c hc
    unfold strip at hc
    rw [List.getLast?_reverse] at hc
    exact head_lstrip _ c hc

/-! ### Numbers of fixed width -/

/-- The last digits of `n` in decimal, in a field of this width. -/
def zeroPadded : ℕ → ℕ → List Char
  | 0, _ => []
  | width + 1, n => zeroPadded width (n / 10) ++ [Nat.digitChar (n % 10)]

@[simp] theorem length_zeroPadded (width n : ℕ) : (zeroPadded width n).length = width := by
  induction width generalizing n with
  | zero => rfl
  | succ width ih => rw [zeroPadded, List.length_append, ih, List.length_singleton]

/-- The digits. -/
def digits : List Char := ['0', '1', '2', '3', '4', '5', '6', '7', '8', '9']

theorem mem_digits_of_mem_zeroPadded {width n : ℕ} {c : Char} (h : c ∈ zeroPadded width n) :
    c ∈ digits := by
  induction width generalizing n with
  | zero => cases h
  | succ width ih =>
    rcases List.mem_append.1 h with h | h
    · exact ih h
    · have hall : ∀ m < 10, Nat.digitChar m ∈ digits := by decide
      rw [List.mem_singleton.1 h]
      exact hall _ (Nat.mod_lt _ (by decide))

/-- A character that is not a digit does not occur. -/
theorem notMem_zeroPadded {c : Char} (hc : c ∉ digits) (width n : ℕ) :
    c ∉ zeroPadded width n :=
  fun h => hc (mem_digits_of_mem_zeroPadded h)

theorem digitChar_inj {m n : ℕ} (hm : m < 10) (hn : n < 10)
    (h : Nat.digitChar m = Nat.digitChar n) : m = n := by
  have hall : ∀ m < 10, ∀ n < 10, Nat.digitChar m = Nat.digitChar n → m = n := by decide
  exact hall m hm n hn h

theorem zeroPadded_inj {width m n : ℕ} (hm : m < 10 ^ width) (hn : n < 10 ^ width)
    (h : zeroPadded width m = zeroPadded width n) : m = n := by
  induction width generalizing m n with
  | zero =>
    rw [pow_zero] at hm hn
    omega
  | succ width ih =>
    rw [pow_succ] at hm hn
    obtain ⟨hinit, hlast⟩ := List.append_inj' h rfl
    have hdiv : m / 10 = n / 10 := ih (by omega) (by omega) hinit
    have hmod : m % 10 = n % 10 :=
      digitChar_inj (Nat.mod_lt _ (by decide)) (Nat.mod_lt _ (by decide))
        (List.singleton_inj.1 hlast)
    omega

/-- The number that digits are those of. -/
def number (text : List Char) : ℕ := text.foldl (fun n c => n * 10 + (c.toNat - '0'.toNat)) 0

theorem number_zeroPadded {width n : ℕ} (h : n < 10 ^ width) : number (zeroPadded width n) = n := by
  induction width generalizing n with
  | zero => exact (Nat.lt_one_iff.1 h).symm
  | succ width ih =>
    rw [pow_succ] at h
    have hdigit : ∀ m < 10, (Nat.digitChar m).toNat - '0'.toNat = m := by decide
    have hinit : number (zeroPadded width (n / 10)) = n / 10 := ih (by omega)
    unfold number at hinit ⊢
    rw [zeroPadded, List.foldl_append, hinit, List.foldl_cons, List.foldl_nil,
      hdigit _ (Nat.mod_lt _ (by decide))]
    omega

/-- A field of this width is read off a text. -/
def readField (width : ℕ) (text : List Char) : ℕ × List Char :=
  (number (text.take width), text.drop width)

theorem readField_append {width n : ℕ} (h : n < 10 ^ width) (text : List Char) :
    readField width (zeroPadded width n ++ text) = (n, text) := by
  unfold readField
  rw [List.take_left' (length_zeroPadded width n), List.drop_left' (length_zeroPadded width n),
    number_zeroPadded h]

theorem readField_zeroPadded {width n : ℕ} (h : n < 10 ^ width) :
    readField width (zeroPadded width n) = (n, []) := by
  have happend := readField_append h []
  rwa [List.append_nil] at happend

/-- Two numbers of two places that are equal agree in each place. -/
theorem place_inj {k a b a' b' : ℕ} (hb : b < k) (hb' : b' < k) (h : a * k + b = a' * k + b') :
    a = a' ∧ b = b' := by
  have hmod := congrArg (· % k) h
  simp only [Nat.mul_add_mod_self_right, Nat.mod_eq_of_lt hb, Nat.mod_eq_of_lt hb'] at hmod
  subst hmod
  exact ⟨Nat.eq_of_mul_eq_mul_right (by omega) (Nat.add_right_cancel h), rfl⟩

/-- The places of a number of two places. -/
theorem place_div {k a b : ℕ} (hb : b < k) : (a * k + b) / k = a := by
  have hpos : 0 < k := by omega
  rw [Nat.mul_comm, Nat.mul_add_div hpos, Nat.div_eq_of_lt hb, Nat.add_zero]

theorem place_mod {k a b : ℕ} (hb : b < k) : (a * k + b) % k = b := by
  rw [Nat.mul_add_mod_self_right, Nat.mod_eq_of_lt hb]

theorem exists_place {k : ℕ} (hk : 0 < k) (n : ℕ) : ∃ a b, n = a * k + b ∧ b < k :=
  ⟨n / k, n % k, (Nat.div_add_mod' n k).symm, Nat.mod_lt n hk⟩

/-! ### Two fields -/

section partition

variable {α : Type} [DecidableEq α] {delim : α} {before text : List α}

/-- What stands before the first delimiter, and what after it. -/
def partition (delim : α) (text : List α) : List α × List α :=
  let before := text.takeWhile (· ≠ delim)
  (before, text.drop (before.length + 1))

theorem partition_cut (after : List α) (h : delim ∉ before) :
    partition delim (before ++ delim :: after) = (before, after) := by
  have hne : ∀ c ∈ before, decide (c ≠ delim) = true := by
    intro c hc
    rw [decide_eq_true_iff]
    rintro rfl
    exact h hc
  have htake : (before ++ delim :: after).takeWhile (· ≠ delim) = before := by
    rw [List.takeWhile_append_of_pos hne]
    simp
  unfold partition
  dsimp only
  rw [htake, List.drop_append]
  simp

theorem partition_of_notMem (h : delim ∉ text) : partition delim text = (text, []) := by
  have htake : text.takeWhile (· ≠ delim) = text := by
    apply List.takeWhile_eq_self_iff.2
    intro c hc
    rw [decide_eq_true_iff]
    rintro rfl
    exact h hc
  unfold partition
  dsimp only
  rw [htake]
  simp

end partition

/-! ### Delimiters -/

section delimiters

variable {α : Type}

/-- The second text is the first one, then a delimiter, and perhaps more. -/
def RunsOn (delim : α) (xs ys : List α) : Prop := xs ++ [delim] <+: ys

theorem not_runsOn {delim : α} {xs ys : List α} (h : delim ∉ ys) : ¬ RunsOn delim xs ys := by
  intro hruns
  exact h (hruns.subset (List.mem_append_right _ (List.mem_singleton_self _)))

theorem runsOn_append (delim : α) (xs us : List α) : RunsOn delim xs (xs ++ delim :: us) :=
  ⟨us, by rw [List.append_assoc, List.singleton_append]⟩

/-- A text is cut in one way only at a delimiter that neither of the fields before it runs over. -/
theorem cut_unique_of_not_runsOn {delim : α} {xs ys us vs : List α} (hx : ¬ RunsOn delim ys xs)
    (hy : ¬ RunsOn delim xs ys) (h : xs ++ delim :: us = ys ++ delim :: vs) :
    xs = ys ∧ us = vs := by
  rcases List.append_eq_append_iff.1 h with ⟨between, rfl, hrest⟩ | ⟨between, rfl, hrest⟩
  · cases between with
    | nil => exact ⟨(List.append_nil xs).symm, (List.cons.inj hrest).2⟩
    | cons c between =>
      obtain ⟨rfl, -⟩ := List.cons.inj hrest
      exact absurd (runsOn_append _ _ _) hy
  · cases between with
    | nil => exact ⟨List.append_nil ys, (List.cons.inj hrest).2.symm⟩
    | cons c between =>
      obtain ⟨rfl, -⟩ := List.cons.inj hrest
      exact absurd (runsOn_append _ _ _) hx

/-- What stands before the first delimiter, and what after it. -/
theorem cut_unique {delim : α} {xs ys us vs : List α} (hx : delim ∉ xs) (hy : delim ∉ ys)
    (h : xs ++ delim :: us = ys ++ delim :: vs) : xs = ys ∧ us = vs :=
  cut_unique_of_not_runsOn (not_runsOn hx) (not_runsOn hy) h

theorem of_mem_join {delim c : α} {fields : List (List α)}
    (h : c ∈ [delim].intercalate fields) : c = delim ∨ ∃ field ∈ fields, c ∈ field := by
  induction fields with
  | nil => cases h
  | cons field fields ih =>
    cases fields with
    | nil =>
      rw [List.intercalate_singleton] at h
      exact Or.inr ⟨field, List.mem_cons_self, h⟩
    | cons field' fields =>
      rw [List.intercalate_cons_cons, List.append_assoc, List.singleton_append, List.mem_append,
        List.mem_cons] at h
      rcases h with hfield | rfl | hrest
      · exact Or.inr ⟨field, List.mem_cons_self, hfield⟩
      · exact Or.inl rfl
      · rcases ih hrest with heq | ⟨field'', hmem, hc⟩
        · exact Or.inl heq
        · exact Or.inr ⟨field'', List.mem_cons_of_mem _ hmem, hc⟩

theorem mem_join {delim c : α} {field : List α} {fields : List (List α)} (h : field ∈ fields)
    (hc : c ∈ field) : c ∈ [delim].intercalate fields := by
  induction fields with
  | nil => cases h
  | cons field' fields ih =>
    cases fields with
    | nil =>
      rw [List.mem_singleton] at h
      rwa [List.intercalate_singleton, ← h]
    | cons field'' fields =>
      rw [List.intercalate_cons_cons, List.append_assoc]
      rcases List.mem_cons.1 h with rfl | h
      · exact List.mem_append_left _ hc
      · exact List.mem_append_right _ (List.mem_append_right _ (ih h))

/-- Joined fields begin like the first of them. -/
theorem join_cons (delim : α) (field : List α) (fields : List (List α)) :
    ∃ after, [delim].intercalate (field :: fields) = field ++ after := by
  cases fields with
  | nil => exact ⟨[], by rw [List.intercalate_singleton, List.append_nil]⟩
  | cons field' fields => exact ⟨_, by rw [List.intercalate_cons_cons, List.append_assoc]⟩

variable [BEq α] [LawfulBEq α]

/-- Fields, cut at every delimiter. -/
def pieces (delim : α) (fields : List (List α)) : List (List α) :=
  fields.flatMap (List.splitOn delim)

theorem splitOn_join (delim : α) {fields : List (List α)} (h : fields ≠ []) :
    ([delim].intercalate fields).splitOn delim = pieces delim fields := by
  induction fields with
  | nil => exact absurd rfl h
  | cons field fields ih =>
    cases fields with
    | nil => simp [pieces]
    | cons field' fields =>
      rw [List.intercalate_cons_cons, List.append_assoc, List.singleton_append,
        List.splitOn_append_cons_self, ih (List.cons_ne_nil _ _)]
      rfl

/-- Joined fields are as many texts as there are ways to cut them. -/
theorem join_inj_iff (delim : α) {fields fields' : List (List α)} (h : fields ≠ [])
    (h' : fields' ≠ []) :
    [delim].intercalate fields = [delim].intercalate fields' ↔
      pieces delim fields = pieces delim fields' := by
  rw [← splitOn_join delim h, ← splitOn_join delim h']
  constructor
  · exact congrArg _
  · intro heq
    have hjoin := congrArg [delim].intercalate heq
    rwa [List.intercalate_splitOn, List.intercalate_splitOn] at hjoin

/-- Fields without the delimiter are what they are joined to, but for no field at all and a
single empty one. -/
theorem join_inj_of_notMem {delim : α} {fields fields' : List (List α)}
    (h : ∀ field ∈ fields, delim ∉ field) (h' : ∀ field ∈ fields', delim ∉ field)
    (heq : [delim].intercalate fields = [delim].intercalate fields') :
    fields = fields' ∨ fields = [] ∧ fields' = [[]] ∨ fields = [[]] ∧ fields' = [] := by
  by_cases hnil : fields = []
  · by_cases hnil' : fields' = []
    · exact Or.inl (hnil.trans hnil'.symm)
    · subst hnil
      have hsplit := List.splitOn_intercalate delim h' hnil'
      rw [← heq] at hsplit
      exact Or.inr (Or.inl ⟨rfl, hsplit.symm⟩)
  · have hsplit := List.splitOn_intercalate delim h hnil
    by_cases hnil' : fields' = []
    · subst hnil'
      rw [heq] at hsplit
      exact Or.inr (Or.inr ⟨hsplit.symm, rfl⟩)
    · rw [heq, List.splitOn_intercalate delim h' hnil'] at hsplit
      exact Or.inl hsplit.symm

end delimiters

end Text
