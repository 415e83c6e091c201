import Mathlib.Data.List.Infix
import Mathlib.Tactic

/-!
# Replacing a text by a marker

All places where a text stands, from the left, are replaced by a marker.  What is left are parts
of what there was before, with markers between them.

* `replace`, and `replace_append` for a text in two halves that no place crosses;
* `Made`, the texts that are made of parts with markers between them;
* `Touches`, a text that stands over a marker, and `Made.replace`, for one that never does;
* `infix_of_touches`, for a marker in brackets.
-/

namespace Text

variable {α : Type} [DecidableEq α]

/-- `text.replace(s, marker)`; so many characters are still to be passed over. -/
def replace (s marker : List α) : ℕ → List α → List α
  | _, [] => []
  | skip + 1, _ :: text => replace s marker skip text
  | 0, c :: text =>
      if s <+: c :: text then marker ++ replace s marker (s.length - 1) text
      else c :: replace s marker 0 text

section replace

variable {s marker : List α}

theorem replace_of_absent {text : List α} (h : ¬ s <:+: text) :
    replace s marker 0 text = text := by
  induction text with
  | nil => rfl
  | cons c text ih =>
    rw [replace, if_neg fun hs => h hs.isInfix, ih fun hs => h (List.infix_cons hs)]

/-- Where the text stands, there is a marker afterwards. -/
theorem marker_infix_replace {text : List α} (hne : s ≠ []) (h : s <:+: text) :
    marker <:+: replace s marker 0 text := by
  induction text with
  | nil => exact absurd (List.eq_nil_of_infix_nil h) hne
  | cons c text ih =>
    rw [replace]
    by_cases hs : s <+: c :: text
    · rw [if_pos hs]
      exact List.infix_append' [] marker _
    · rw [if_neg hs]
      exact List.infix_cons (ih ((List.infix_cons_iff.1 h).resolve_left hs))

/-- Two halves that no place crosses are replaced each on its own. -/
theorem replace_append {a b : List α} (skip : ℕ) (hskip : skip ≤ a.length)
    (h : ∀ u v, a ++ b = u ++ s ++ v → u.length < a.length → (u ++ s).length ≤ a.length) :
    replace s marker skip (a ++ b) = replace s marker skip a ++ replace s marker 0 b := by
  induction a generalizing skip with
  | nil =>
    obtain rfl := Nat.le_zero.1 hskip
    rfl
  | cons c a ih =>
    have htail : ∀ u v, a ++ b = u ++ s ++ v → u.length < a.length →
        (u ++ s).length ≤ a.length := by
      intro u v huv hlt
      have := h (c :: u) v (by rw [List.cons_append, huv]; rfl) (Nat.succ_lt_succ hlt)
      exact Nat.le_of_succ_le_succ this
    cases skip with
    | succ skip => exact ih skip (Nat.le_of_succ_le_succ hskip) htail
    | zero =>
      rw [List.cons_append, replace, replace]
      by_cases hs : s <+: c :: (a ++ b)
      · -- the place begins in the first half, so it ends there
        obtain ⟨v, hv⟩ := hs
        have hle : s.length ≤ (c :: a).length :=
          h [] v hv.symm (Nat.succ_pos _)
        have hs' : s <+: c :: a :=
          List.prefix_of_prefix_length_le ⟨v, hv⟩ (List.prefix_append (c :: a) b) hle
        rw [if_pos ⟨v, hv⟩, if_pos hs', ih _ (Nat.sub_le_of_le_add hle) htail, List.append_assoc]
      · have hs' : ¬ s <+: c :: a := fun hpre => hs (hpre.trans (List.prefix_append (c :: a) b))
        rw [if_neg hs, if_neg hs', ih 0 (Nat.zero_le _) htail]
        rfl

end replace

/-! ### Texts with markers in them -/

/-- A text of parts with a marker between every two of them. -/
inductive Made (Part : List α → Prop) (marker : List α) : List α → Prop
  | part {p : List α} (hp : Part p) : Made Part marker p
  | join {p t : List α} (hp : Part p) (ht : Made Part marker t) :
      Made Part marker (p ++ marker ++ t)

/-- The text stands in the two with a marker between, and not in one of them alone. -/
def Touches (s marker p t : List α) : Prop :=
  ∃ u v, p ++ marker ++ t = u ++ s ++ v ∧ u.length < (p ++ marker).length ∧
    p.length < (u ++ s).length

section made

variable {s marker p t : List α} {Part Part' : List α → Prop}

omit [DecidableEq α] in
theorem Made.append {t' : List α} (ht : Made Part marker t) (ht' : Made Part marker t') :
    Made Part marker (t ++ marker ++ t') := by
  induction ht with
  | part hp => exact Made.join hp ht'
  | @join p t hp ht ih =>
    have hassoc : p ++ marker ++ t ++ marker ++ t' = p ++ marker ++ (t ++ marker ++ t') := by
      simp only [List.append_assoc]
    rw [hassoc]
    exact Made.join hp ih

omit [DecidableEq α] in
theorem Made.imp (h : ∀ p, Part p → Part' p) (ht : Made Part marker t) :
    Made Part' marker t := by
  induction ht with
  | part hp => exact Made.part (h _ hp)
  | join hp _ ih => exact Made.join (h _ hp) ih

omit [DecidableEq α] in
/-- What stands over no marker stands on one of the sides. -/
theorem infix_cases (h : s <:+: p ++ marker ++ t) : Touches s marker p t ∨ s <:+: p ∨ s <:+: t := by
  obtain ⟨u, v, huv⟩ := h
  by_cases hright : u.length < (p ++ marker).length
  · by_cases hleft : p.length < (u ++ s).length
    · exact Or.inl ⟨u, v, huv.symm, hright, hleft⟩
    · have hus : u ++ s <+: p ++ (marker ++ t) := ⟨v, by rw [huv, List.append_assoc]⟩
      have hpre : u ++ s <+: p :=
        List.prefix_of_prefix_length_le hus (List.prefix_append _ _) (not_lt.1 hleft)
      exact Or.inr (Or.inl ((List.suffix_append u s).isInfix.trans hpre.isInfix))
  · have hu : u <+: p ++ marker ++ t := ⟨s ++ v, by rw [← huv, List.append_assoc]⟩
    have hpre : p ++ marker <+: u :=
      List.prefix_of_prefix_length_le (List.prefix_append _ _) hu (not_lt.1 hright)
    obtain ⟨u', rfl⟩ := hpre
    have ht : t = u' ++ s ++ v := by
      have := huv.symm
      simp only [List.append_assoc, List.append_cancel_left_eq] at this
      rw [this, List.append_assoc]
    exact Or.inr (Or.inr ⟨u', v, ht.symm⟩)

/-- A text that stands over no marker is replaced on each side on its own. -/
theorem replace_join (hne : s ≠ []) (h : ¬ Touches s marker p t) :
    replace s marker 0 (p ++ marker ++ t) =
      replace s marker 0 p ++ marker ++ replace s marker 0 t := by
  have hmarker : ¬ s <:+: marker := by
    rintro ⟨u, v, huv⟩
    have hpos := List.length_pos_iff.2 hne
    refine h ⟨p ++ u, v ++ t, ?_, ?_, ?_⟩
    · rw [← huv]
      simp only [List.append_assoc]
    · have := congrArg List.length huv
      simp only [List.length_append] at this ⊢
      omega
    · simp only [List.length_append]
      omega
  rw [replace_append 0 (Nat.zero_le _), replace_append 0 (Nat.zero_le _),
    replace_of_absent hmarker]
  · intro u v huv hlt
    by_contra hgt
    refine h ⟨u, v ++ t, ?_, ?_, not_le.1 hgt⟩
    · rw [huv, List.append_assoc, List.append_assoc]
    · rw [List.length_append]
      omega
  · intro u v huv hlt
    by_contra hgt
    refine h ⟨u, v, huv, hlt, ?_⟩
    simp only [List.length_append] at hgt ⊢
    omega

omit [DecidableEq α] in
theorem made_of_head (hp : Part p)
    (ht : t = [] ∨ ∃ t', t = marker ++ t' ∧ Made Part marker t') : Made Part marker (p ++ t) := by
  rcases ht with rfl | ⟨t', rfl, ht'⟩
  · rw [List.append_nil]
    exact Made.part hp
  · rw [← List.append_assoc]
    exact Made.join hp ht'

/-- What is left up to the first marker is the beginning of the text that is not passed over. -/
theorem replace_head (hne : s ≠ []) (skip : ℕ) (text : List α) :
    ∃ p t, replace s marker skip text = p ++ t ∧ p <+: text.drop skip ∧ ¬ s <:+: p ∧
      (t = [] ∨ ∃ t', t = marker ++ t' ∧
        Made (fun q => q <:+: text ∧ ¬ s <:+: q) marker t') := by
  have hnil : ¬ s <:+: [] := fun h => hne (List.eq_nil_of_infix_nil h)
  induction text generalizing skip with
  | nil => exact ⟨[], [], rfl, List.nil_prefix, hnil, Or.inl rfl⟩
  | cons c text ih =>
    have hcons : ∀ q, q <:+: text ∧ ¬ s <:+: q → q <:+: c :: text ∧ ¬ s <:+: q :=
      fun q hq => ⟨List.infix_cons hq.1, hq.2⟩
    cases skip with
    | succ skip =>
      obtain ⟨p, t, heq, hp, hs, ht⟩ := ih skip
      refine ⟨p, t, heq, hp, hs, ht.imp_right ?_⟩
      rintro ⟨t', rfl, ht'⟩
      exact ⟨t', rfl, ht'.imp hcons⟩
    | zero =>
      rw [replace]
      by_cases hmatch : s <+: c :: text
      · rw [if_pos hmatch]
        obtain ⟨p, t, heq, hp, hs, ht⟩ := ih (s.length - 1)
        have hmade := made_of_head ⟨hp.isInfix.trans (List.drop_suffix _ _).isInfix, hs⟩ ht
        rw [← heq] at hmade
        exact ⟨[], _, rfl, List.nil_prefix, hnil, Or.inr ⟨_, rfl, hmade.imp hcons⟩⟩
      · rw [if_neg hmatch]
        obtain ⟨p, t, heq, hp, hs, ht⟩ := ih 0
        have hp' : c :: p <+: c :: text := List.cons_prefix_cons.2 ⟨rfl, hp⟩
        refine ⟨c :: p, t, by rw [heq]; rfl, hp', ?_, ht.imp_right ?_⟩
        · intro hstands
          rcases List.infix_cons_iff.1 hstands with hpre | hstands
          · exact hmatch (hpre.trans hp')
          · exact hs hstands
        · rintro ⟨t', rfl, ht'⟩
          exact ⟨t', rfl, ht'.imp hcons⟩

/-- What is left of a text: parts of it in which the replaced text does not stand. -/
theorem made_replace (hne : s ≠ []) (text : List α) :
    Made (fun q => q <:+: text ∧ ¬ s <:+: q) marker (replace s marker 0 text) := by
  obtain ⟨p, t, heq, hp, hs, ht⟩ := @replace_head α _ s marker hne 0 text
  rw [heq]
  exact made_of_head ⟨hp.isInfix, hs⟩ ht

/-- A text that never stands over a marker is replaced in each part. -/
theorem Made.replace (hne : s ≠ [])
    (h : ∀ p t, Part p → Made Part marker t → ¬ Touches s marker p t)
    (ht : Made Part marker t) :
    Made (fun q => (∃ p, Part p ∧ q <:+: p) ∧ ¬ s <:+: q) marker (replace s marker 0 t) := by
  have hparts : ∀ p, Part p →
      Made (fun q => (∃ p, Part p ∧ q <:+: p) ∧ ¬ s <:+: q) marker (Text.replace s marker 0 p) :=
    fun p hp => (made_replace hne p).imp fun q hq => ⟨⟨p, hp, hq.1⟩, hq.2⟩
  induction ht with
  | part hp => exact hparts _ hp
  | join hp ht ih =>
    rw [replace_join hne (h _ _ hp ht)]
    exact (hparts _ hp).append ih

omit [DecidableEq α] in
/-- What never stands over a marker stands in a part, if anywhere. -/
theorem Made.infix_part (h : ∀ p t, Part p → Made Part marker t → ¬ Touches s marker p t)
    (ht : Made Part marker t) (hs : s <:+: t) : ∃ p, Part p ∧ s <:+: p := by
  induction ht with
  | part hp => exact ⟨_, hp, hs⟩
  | join hp ht ih =>
    rcases infix_cases hs with htouch | hs | hs
    · exact absurd htouch (h _ _ hp ht)
    · exact ⟨_, hp, hs⟩
    · exact ih hs

end made

/-! ### Markers in brackets -/

section brackets

omit [DecidableEq α]

/-- What stands at a position that a text covers is in the text. -/
theorem mem_of_covers {s a b u v : List α} {c : α} (h : a ++ c :: b = u ++ s ++ v)
    (hleft : u.length ≤ a.length) (hright : a.length < (u ++ s).length) : c ∈ s := by
  have hget : (u ++ s ++ v)[a.length]? = some c := by
    rw [← h]
    simp
  rw [List.getElem?_append_left hright, List.getElem?_append_right hleft] at hget
  exact List.mem_of_getElem? hget

/-- A text that lies between the brackets is part of what they enclose. -/
theorem infix_of_between {s p m t u v : List α} (h : p ++ m ++ t = u ++ s ++ v)
    (hleft : p.length ≤ u.length) (hright : (u ++ s).length ≤ (p ++ m).length) : s <:+: m := by
  have hp : p <+: p ++ m ++ t := ⟨m ++ t, by rw [List.append_assoc]⟩
  have hu : u <+: p ++ m ++ t := ⟨s ++ v, by rw [h, List.append_assoc]⟩
  obtain ⟨u', rfl⟩ := List.prefix_of_prefix_length_le hp hu hleft
  have hs : p ++ u' ++ s <+: p ++ m :=
    List.prefix_of_prefix_length_le ⟨v, h.symm⟩ (List.prefix_append _ _) hright
  rw [List.append_assoc, List.prefix_append_right_inj] at hs
  exact (List.suffix_append u' s).isInfix.trans hs.isInfix

/-- A text with no bracket stands over a marker only between its brackets. -/
theorem infix_of_touches {s inner p t : List α} {left right : α} (hleft : left ∉ s)
    (hright : right ∉ s) (h : Touches s (left :: inner ++ [right]) p t) : s <:+: inner := by
  obtain ⟨u, v, huv, hu, hs⟩ := h
  have hopen : p ++ left :: (inner ++ [right] ++ t) = u ++ s ++ v := by
    rw [← huv]
    simp only [List.append_assoc, List.cons_append]
  have hclose : p ++ left :: inner ++ right :: t = u ++ s ++ v := by
    rw [← huv]
    simp only [List.append_assoc, List.cons_append, List.nil_append]
  have hstart : p.length < u.length := by
    by_contra hle
    exact hleft (mem_of_covers hopen (not_lt.1 hle) hs)
  have hend : (u ++ s).length ≤ (p ++ left :: inner).length := by
    by_contra hlt
    refine hright (mem_of_covers hclose ?_ (not_le.1 hlt))
    simp only [List.length_append, List.length_cons, List.length_nil] at hu ⊢
    omega
  apply infix_of_between (p := p ++ [left]) (t := right :: t) (u := u) (v := v)
  · rw [← hclose]
    simp only [List.append_assoc, List.cons_append, List.nil_append]
  · rw [List.length_append, List.length_singleton]
    omega
  · simp only [List.length_append, List.length_cons, List.length_nil] at hend ⊢
    omega

end brackets

end Text
