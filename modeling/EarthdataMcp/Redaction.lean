import EarthdataMcp.Text.Replace

/-!
# Redaction

The registered secrets, and how every text of a structure is scrubbed of them: one secret after
the other is replaced by the marker, in the order of the registration.

* `Registry`, its `register`, and `redact` and `redactObj`;
* `Assembled`, a secret that parts of a text and markers can be put together to;
* `clean_redactObj`: when the output has no secret anywhere.
-/

namespace EarthdataMcp

/-- A value: texts in lists, tuples and dictionaries, and what is none of these. -/
inductive Obj
  | none
  | bool (b : Bool)
  | num (q : ℚ)
  | str (text : List Char)
  | list (items : List Obj)
  | tuple (items : List Obj)
  | dict (entries : List (List Char × Obj))

/-- What a registered secret is replaced with: `[redacted]`. -/
def redacted : List Char := ['[', 'r', 'e', 'd', 'a', 'c', 't', 'e', 'd', ']']

def maxSecrets : ℕ := 256

def minSecretLength : ℕ := 8

/-- The registered secrets, the oldest first. -/
structure Registry where
  secrets : List (List Char)
  long : ∀ s ∈ secrets, minSecretLength ≤ s.length
  nodup : secrets.Nodup
  bounded : secrets.length ≤ maxSecrets

namespace Registry

def empty : Registry where
  secrets := []
  long := List.forall_mem_nil _
  nodup := List.nodup_nil
  bounded := Nat.zero_le _

variable (registry : Registry)

/-- The secrets with the value as the newest, without the oldest ones that are too many. -/
def renewed (value : List Char) : List (List Char) :=
  let secrets := registry.secrets.erase value ++ [value]
  secrets.drop (secrets.length - maxSecrets)

theorem mem_renewed {value s : List Char} (h : s ∈ registry.renewed value) :
    s ∈ registry.secrets ∨ s = value := by
  rcases List.mem_append.1 (List.mem_of_mem_drop h) with hs | hs
  · exact Or.inl (List.mem_of_mem_erase hs)
  · exact Or.inr (List.mem_singleton.1 hs)

theorem nodup_renewed (value : List Char) : (registry.renewed value).Nodup := by
  apply List.Nodup.sublist (List.drop_sublist _ _)
  rw [List.nodup_append]
  refine ⟨registry.nodup.erase value, List.nodup_singleton value, ?_⟩
  rintro s hs t ht rfl
  rw [List.mem_singleton.1 ht] at hs
  exact registry.nodup.not_mem_erase hs

theorem length_renewed (value : List Char) : (registry.renewed value).length ≤ maxSecrets := by
  unfold renewed
  dsimp only
  rw [List.length_drop]
  omega

/-- `register_secret`. -/
def register : Option (List Char) → Registry
  | none => registry
  | some value =>
      if h : value.length < minSecretLength then registry
      else
        { secrets := registry.renewed value
          long := fun s hs => (registry.mem_renewed hs).elim (registry.long s)
            fun heq => heq ▸ Nat.le_of_not_lt h
          nodup := registry.nodup_renewed value
          bounded := registry.length_renewed value }

theorem ne_nil {s : List Char} (h : s ∈ registry.secrets) : s ≠ [] := by
  rintro rfl
  exact absurd (registry.long [] h) (by decide)

end Registry

/-- One secret after the other is replaced, if it is in the text. -/
def redactAll (secrets : List (List Char)) (text : List Char) : List Char :=
  secrets.foldl
    (fun text secret => if secret <:+: text then Text.replace secret redacted 0 text else text) text

/-- `redact`. -/
def redact (registry : Registry) (text : List Char) : List Char :=
  if text = [] ∨ registry.secrets = [] then text else redactAll registry.secrets text

mutual

/-- `redact_obj`. -/
def redactObj (registry : Registry) : Obj → Obj
  | .str text => if registry.secrets = [] then .str text else .str (redact registry text)
  | .dict entries =>
      if registry.secrets = [] then .dict entries else .dict (redactEntries registry entries)
  | .list items =>
      if registry.secrets = [] then .list items else .list (redactItems registry items)
  | .tuple items =>
      if registry.secrets = [] then .tuple items else .tuple (redactItems registry items)
  | .none => .none
  | .bool b => .bool b
  | .num q => .num q

def redactItems (registry : Registry) : List Obj → List Obj
  | [] => []
  | item :: items => redactObj registry item :: redactItems registry items

def redactEntries (registry : Registry) : List (List Char × Obj) → List (List Char × Obj)
  | [] => []
  | (key, value) :: entries => (key, redactObj registry value) :: redactEntries registry entries

end

/-! ### What the output is to satisfy -/

/-- The text is a value somewhere in the object. -/
inductive Obj.Leaf (text : List Char) : Obj → Prop
  | str : Obj.Leaf text (.str text)
  | list {item : Obj} {items : List Obj} (hmem : item ∈ items) (h : Obj.Leaf text item) :
      Obj.Leaf text (.list items)
  | tuple {item : Obj} {items : List Obj} (hmem : item ∈ items) (h : Obj.Leaf text item) :
      Obj.Leaf text (.tuple items)
  | dict {key : List Char} {value : Obj} {entries : List (List Char × Obj)}
      (hmem : (key, value) ∈ entries) (h : Obj.Leaf text value) : Obj.Leaf text (.dict entries)

/-- The text is a key somewhere in the object. -/
inductive Obj.Key (text : List Char) : Obj → Prop
  | here {value : Obj} {entries : List (List Char × Obj)} (hmem : (text, value) ∈ entries) :
      Obj.Key text (.dict entries)
  | list {item : Obj} {items : List Obj} (hmem : item ∈ items) (h : Obj.Key text item) :
      Obj.Key text (.list items)
  | tuple {item : Obj} {items : List Obj} (hmem : item ∈ items) (h : Obj.Key text item) :
      Obj.Key text (.tuple items)
  | dict {key : List Char} {value : Obj} {entries : List (List Char × Obj)}
      (hmem : (key, value) ∈ entries) (h : Obj.Key text value) : Obj.Key text (.dict entries)

/-- No registered secret stands in the text. -/
def Registry.Free (registry : Registry) (text : List Char) : Prop :=
  ∀ s ∈ registry.secrets, ¬ s <:+: text

instance (registry : Registry) (text : List Char) : Decidable (registry.Free text) := by
  unfold Registry.Free; infer_instance

/-- No registered secret stands in a text of the object, be it a value or a key. -/
def Clean (registry : Registry) (obj : Obj) : Prop :=
  ∀ text, Obj.Leaf text obj ∨ Obj.Key text obj → registry.Free text

/-- The secret stands over a marker in a text that is made of parts of this one and markers. -/
def Assembled (text secret : List Char) : Prop :=
  ∃ p t, p <:+: text ∧ Text.Made (· <:+: text) redacted t ∧ Text.Touches secret redacted p t

/-! ### A text -/

section text

variable {registry : Registry} {secrets done : List (List Char)} {text t : List Char}

theorem redactAll_cons (secret : List Char) :
    redactAll (secret :: secrets) text =
      redactAll secrets (Text.replace secret redacted 0 text) := by
  unfold redactAll
  rw [List.foldl_cons]
  by_cases h : secret <:+: text
  · rw [if_pos h]
  · rw [if_neg h, Text.replace_of_absent h]

theorem redact_eq : redact registry text = redactAll registry.secrets text := by
  unfold redact
  by_cases htext : text = []
  · rw [if_pos (Or.inl htext), htext]
    have hnil : ∀ secrets : List (List Char), redactAll secrets [] = [] := by
      intro secrets
      induction secrets with
      | nil => rfl
      | cons secret secrets ih =>
        rw [redactAll_cons]
        exact ih
    exact (hnil _).symm
  · by_cases hsecrets : registry.secrets = []
    · rw [if_pos (Or.inr hsecrets), hsecrets]
      rfl
    · rw [if_neg (not_or.2 ⟨htext, hsecrets⟩)]

theorem redactAll_of_free (h : ∀ s ∈ secrets, ¬ s <:+: text) : redactAll secrets text = text := by
  induction secrets with
  | nil => rfl
  | cons secret secrets ih =>
    rw [redactAll_cons, Text.replace_of_absent (h secret List.mem_cons_self)]
    exact ih fun s hs => h s (List.mem_cons_of_mem _ hs)

/-- A marker stays, or another one takes its place. -/
theorem redacted_infix_redactAll (hne : ∀ s ∈ secrets, s ≠ []) (h : redacted <:+: text) :
    redacted <:+: redactAll secrets text := by
  induction secrets generalizing text with
  | nil => exact h
  | cons secret secrets ih =>
    rw [redactAll_cons]
    apply ih fun s hs => hne s (List.mem_cons_of_mem _ hs)
    by_cases hs : secret <:+: text
    · exact Text.marker_infix_replace (hne secret List.mem_cons_self) hs
    · rw [Text.replace_of_absent hs]
      exact h

/-- A text with a secret gets a marker. -/
theorem redacted_infix_of_stands (hne : ∀ s ∈ secrets, s ≠ []) {s : List Char} (hs : s ∈ secrets)
    (h : s <:+: text) : redacted <:+: redactAll secrets text := by
  induction secrets generalizing text with
  | nil => cases hs
  | cons secret secrets ih =>
    have hne' : ∀ s ∈ secrets, s ≠ [] := fun s hs => hne s (List.mem_cons_of_mem _ hs)
    rw [redactAll_cons]
    by_cases hsecret : secret <:+: text
    · exact redacted_infix_redactAll hne'
        (Text.marker_infix_replace (hne secret List.mem_cons_self) hsecret)
    · rw [Text.replace_of_absent hsecret]
      rcases List.mem_cons.1 hs with rfl | hs
      · exact absurd h hsecret
      · exact ih hne' hs h

/-- If no secret can be assembled, each replacement leaves parts without its secret, and the later
ones only cut them smaller. -/
theorem made_redactAll (hne : ∀ s ∈ secrets, s ≠ []) (h : ∀ s ∈ secrets, ¬ Assembled text s)
    (ht : Text.Made (fun p => p <:+: text ∧ ∀ s ∈ done, ¬ s <:+: p) redacted t) :
    Text.Made (fun p => p <:+: text ∧ ∀ s ∈ done ++ secrets, ¬ s <:+: p) redacted
      (redactAll secrets t) := by
  induction secrets generalizing done t with
  | nil =>
    rw [List.append_nil]
    exact ht
  | cons secret secrets ih =>
    rw [redactAll_cons, List.append_cons]
    apply ih (fun s hs => hne s (List.mem_cons_of_mem _ hs))
      (fun s hs => h s (List.mem_cons_of_mem _ hs))
    have hreplaced := ht.replace (hne secret List.mem_cons_self) (by
      intro p t hp ht htouch
      exact h secret List.mem_cons_self ⟨p, t, hp.1, ht.imp fun _ hq => hq.1, htouch⟩)
    apply hreplaced.imp
    rintro q ⟨⟨p, ⟨hp, hdone⟩, hq⟩, hsecret⟩
    refine ⟨hq.trans hp, fun s hs hstands => ?_⟩
    rcases List.mem_append.1 hs with hs | hs
    · exact hdone s hs (hstands.trans hq)
    · rw [List.mem_singleton.1 hs] at hstands
      exact hsecret hstands

/-- A text is clean if it had no secret, or no secret can be assembled from it. -/
theorem free_redact
    (h : registry.Free text ∨ ∀ s ∈ registry.secrets, ¬ Assembled text s) :
    registry.Free (redact registry text) := by
  rw [redact_eq]
  rcases h with hfree | hassembled
  · rw [redactAll_of_free hfree]
    exact hfree
  · have hstart : Text.Made (fun p => p <:+: text ∧ ∀ s ∈ ([] : List (List Char)), ¬ s <:+: p)
        redacted text := Text.Made.part ⟨List.infix_rfl, List.forall_mem_nil _⟩
    have hmade := made_redactAll (fun s hs => registry.ne_nil hs) hassembled hstart
    intro s hs hstands
    obtain ⟨p, ⟨-, hp⟩, hsp⟩ := hmade.infix_part (by
      intro p t hp ht htouch
      exact hassembled s hs ⟨p, t, hp.1, ht.imp fun _ hq => hq.1, htouch⟩) hstands
    exact hp s hs hsp

/-- A clean text had no secret, or no secret is part of the marker. -/
theorem free_or_of_free_redact (h : registry.Free (redact registry text)) :
    registry.Free text ∨ ∀ s ∈ registry.secrets, ¬ s <:+: redacted := by
  by_cases hfree : registry.Free text
  · exact Or.inl hfree
  · right
    intro s hs hstands
    unfold Registry.Free at hfree
    push Not at hfree
    obtain ⟨s', hs', htext⟩ := hfree
    rw [redact_eq] at h
    exact h s hs (hstands.trans
      (redacted_infix_of_stands (fun s hs => registry.ne_nil hs) hs' htext))

/-- A secret without brackets can be assembled only from what is between them. -/
theorem infix_redacted_of_assembled {s : List Char} (hleft : '[' ∉ s) (hright : ']' ∉ s)
    (h : Assembled text s) : s <:+: redacted := by
  obtain ⟨p, t, -, -, htouch⟩ := h
  have hinner : s <:+: ['r', 'e', 'd', 'a', 'c', 't', 'e', 'd'] :=
    Text.infix_of_touches hleft hright htouch
  exact hinner.trans ⟨['['], [']'], rfl⟩

end text

/-! ### An object -/

section object

variable {registry : Registry} {text : List Char} {obj : Obj}

theorem redactItems_eq (items : List Obj) :
    redactItems registry items = items.map (redactObj registry) := by
  induction items with
  | nil => rfl
  | cons item items ih => exact congrArg (redactObj registry item :: ·) ih

theorem redactEntries_eq (entries : List (List Char × Obj)) :
    redactEntries registry entries = entries.map fun e => (e.1, redactObj registry e.2) := by
  induction entries with
  | nil => rfl
  | cons entry entries ih => exact congrArg ((entry.1, redactObj registry entry.2) :: ·) ih

theorem redactObj_of_nil (h : registry.secrets = []) : redactObj registry = id := by
  funext obj
  cases obj with
  | str text => exact if_pos h
  | dict entries => exact if_pos h
  | list items => exact if_pos h
  | tuple items => exact if_pos h
  | _ => rfl

@[simp] theorem redactObj_str (text : List Char) :
    redactObj registry (.str text) = .str (redact registry text) := by
  show (if registry.secrets = [] then Obj.str text else .str (redact registry text)) = _
  by_cases h : registry.secrets = []
  · rw [if_pos h, redact, if_pos (Or.inr h)]
  · rw [if_neg h]

@[simp] theorem redactObj_list (items : List Obj) :
    redactObj registry (.list items) = .list (items.map (redactObj registry)) := by
  show (if registry.secrets = [] then Obj.list items else .list (redactItems registry items)) = _
  rw [redactItems_eq]
  by_cases h : registry.secrets = []
  · rw [if_pos h, redactObj_of_nil h, List.map_id]
  · rw [if_neg h]

@[simp] theorem redactObj_tuple (items : List Obj) :
    redactObj registry (.tuple items) = .tuple (items.map (redactObj registry)) := by
  show (if registry.secrets = [] then Obj.tuple items else .tuple (redactItems registry items)) = _
  rw [redactItems_eq]
  by_cases h : registry.secrets = []
  · rw [if_pos h, redactObj_of_nil h, List.map_id]
  · rw [if_neg h]

@[simp] theorem redactObj_dict (entries : List (List Char × Obj)) :
    redactObj registry (.dict entries) =
      .dict (entries.map fun e => (e.1, redactObj registry e.2)) := by
  show (if registry.secrets = [] then Obj.dict entries
    else .dict (redactEntries registry entries)) = _
  rw [redactEntries_eq]
  by_cases h : registry.secrets = []
  · rw [if_pos h, redactObj_of_nil h]
    simp
  · rw [if_neg h]

@[simp] theorem redactObj_none : redactObj registry .none = .none := rfl

@[simp] theorem redactObj_bool (b : Bool) : redactObj registry (.bool b) = .bool b := rfl

@[simp] theorem redactObj_num (q : ℚ) : redactObj registry (.num q) = .num q := rfl

/-! A value of the output has the constructor of the value it comes from. -/

theorem redactObj_eq_str (h : redactObj registry obj = .str text) :
    ∃ t, obj = .str t ∧ text = redact registry t := by
  cases obj <;> simp at h
  exact ⟨_, rfl, h.symm⟩

theorem redactObj_eq_list {out : List Obj} (h : redactObj registry obj = .list out) :
    ∃ items, obj = .list items ∧ out = items.map (redactObj registry) := by
  cases obj <;> simp at h
  exact ⟨_, rfl, h.symm⟩

theorem redactObj_eq_tuple {out : List Obj} (h : redactObj registry obj = .tuple out) :
    ∃ items, obj = .tuple items ∧ out = items.map (redactObj registry) := by
  cases obj <;> simp at h
  exact ⟨_, rfl, h.symm⟩

theorem redactObj_eq_dict {out : List (List Char × Obj)}
    (h : redactObj registry obj = .dict out) :
    ∃ entries, obj = .dict entries ∧
      out = entries.map fun e => (e.1, redactObj registry e.2) := by
  cases obj <;> simp at h
  exact ⟨_, rfl, h.symm⟩

/-- The values of the output are those of the object, each redacted. -/
theorem leaf_redactObj :
    Obj.Leaf text (redactObj registry obj) ↔ ∃ t, Obj.Leaf t obj ∧ text = redact registry t := by
  constructor
  · intro h
    generalize hout : redactObj registry obj = out at h
    induction h generalizing obj with
    | str =>
      obtain ⟨t, rfl, rfl⟩ := redactObj_eq_str hout
      exact ⟨t, Obj.Leaf.str, rfl⟩
    | list hmem _ ih =>
      obtain ⟨items, rfl, rfl⟩ := redactObj_eq_list hout
      obtain ⟨item, hitem, heq⟩ := List.mem_map.1 hmem
      obtain ⟨t, ht, rfl⟩ := ih heq
      exact ⟨t, Obj.Leaf.list hitem ht, rfl⟩
    | tuple hmem _ ih =>
      obtain ⟨items, rfl, rfl⟩ := redactObj_eq_tuple hout
      obtain ⟨item, hitem, heq⟩ := List.mem_map.1 hmem
      obtain ⟨t, ht, rfl⟩ := ih heq
      exact ⟨t, Obj.Leaf.tuple hitem ht, rfl⟩
    | dict hmem _ ih =>
      obtain ⟨entries, rfl, rfl⟩ := redactObj_eq_dict hout
      obtain ⟨⟨key, value⟩, hentry, heq⟩ := List.mem_map.1 hmem
      obtain ⟨t, ht, rfl⟩ := ih (Prod.mk.inj heq).2
      exact ⟨t, Obj.Leaf.dict hentry ht, rfl⟩
  · rintro ⟨t, ht, rfl⟩
    induction ht with
    | str =>
      rw [redactObj_str]
      exact Obj.Leaf.str
    | list hmem _ ih =>
      rw [redactObj_list]
      exact Obj.Leaf.list (List.mem_map.2 ⟨_, hmem, rfl⟩) ih
    | tuple hmem _ ih =>
      rw [redactObj_tuple]
      exact Obj.Leaf.tuple (List.mem_map.2 ⟨_, hmem, rfl⟩) ih
    | dict hmem _ ih =>
      rw [redactObj_dict]
      exact Obj.Leaf.dict (List.mem_map.2 ⟨_, hmem, rfl⟩) ih

/-- The keys are not touched. -/
theorem key_redactObj : Obj.Key text (redactObj registry obj) ↔ Obj.Key text obj := by
  constructor
  · intro h
    generalize hout : redactObj registry obj = out at h
    induction h generalizing obj with
    | here hmem =>
      obtain ⟨entries, rfl, rfl⟩ := redactObj_eq_dict hout
      obtain ⟨⟨key, value⟩, hentry, heq⟩ := List.mem_map.1 hmem
      obtain rfl := (Prod.mk.inj heq).1
      exact Obj.Key.here hentry
    | list hmem _ ih =>
      obtain ⟨items, rfl, rfl⟩ := redactObj_eq_list hout
      obtain ⟨item, hitem, heq⟩ := List.mem_map.1 hmem
      exact Obj.Key.list hitem (ih heq)
    | tuple hmem _ ih =>
      obtain ⟨items, rfl, rfl⟩ := redactObj_eq_tuple hout
      obtain ⟨item, hitem, heq⟩ := List.mem_map.1 hmem
      exact Obj.Key.tuple hitem (ih heq)
    | dict hmem _ ih =>
      obtain ⟨entries, rfl, rfl⟩ := redactObj_eq_dict hout
      obtain ⟨⟨key, value⟩, hentry, heq⟩ := List.mem_map.1 hmem
      exact Obj.Key.dict hentry (ih (Prod.mk.inj heq).2)
  · intro h
    induction h with
    | here hmem =>
      rw [redactObj_dict]
      exact Obj.Key.here (List.mem_map.2 ⟨_, hmem, rfl⟩)
    | list hmem _ ih =>
      rw [redactObj_list]
      exact Obj.Key.list (List.mem_map.2 ⟨_, hmem, rfl⟩) ih
    | tuple hmem _ ih =>
      rw [redactObj_tuple]
      exact Obj.Key.tuple (List.mem_map.2 ⟨_, hmem, rfl⟩) ih
    | dict hmem _ ih =>
      rw [redactObj_dict]
      exact Obj.Key.dict (List.mem_map.2 ⟨_, hmem, rfl⟩) ih

/-- No key has a secret, and a value has one only if none can be assembled from it. -/
def Redactable (registry : Registry) (obj : Obj) : Prop :=
  (∀ text, Obj.Key text obj → registry.Free text) ∧
    ∀ text, Obj.Leaf text obj →
      registry.Free text ∨ ∀ s ∈ registry.secrets, ¬ Assembled text s

/-- The output is clean if the object can be redacted, and only then where all that can be
assembled is part of the marker, as it is for secrets without brackets. -/
theorem clean_redactObj (registry : Registry) (obj : Obj) :
    (Redactable registry obj → Clean registry (redactObj registry obj)) ∧
      ((∀ text, Obj.Leaf text obj →
          ∀ s ∈ registry.secrets, Assembled text s → s <:+: redacted) →
        Clean registry (redactObj registry obj) → Redactable registry obj) := by
  constructor
  · rintro ⟨hkeys, hleaves⟩ text (hleaf | hkey)
    · obtain ⟨t, ht, rfl⟩ := leaf_redactObj.1 hleaf
      exact free_redact (hleaves t ht)
    · exact hkeys text (key_redactObj.1 hkey)
  · intro hmarker hclean
    constructor
    · intro text hkey
      exact hclean text (Or.inr (key_redactObj.2 hkey))
    · intro text hleaf
      have hfree := hclean _ (Or.inl (leaf_redactObj.2 ⟨text, hleaf, rfl⟩))
      apply (free_or_of_free_redact hfree).imp_right
      intro hnot s hs hassembled
      exact hnot s hs (hmarker text hleaf s hs hassembled)

/-- A secret twice in a text of a list. -/
theorem clean_redactObj_list :
    let registry := Registry.empty.register (some ['h', 'u', 'n', 't', 'e', 'r', '2', '7'])
    Clean registry (redactObj registry (.dict [(['m'], .list [.str
      ['h', 'u', 'n', 't', 'e', 'r', '2', '7', ' ', 'h', 'u', 'n', 't', 'e', 'r', '2', '7']])])) :=
  (clean_redactObj _ _).1 (by
    constructor
    · intro text hkey
      cases hkey with
      | here hmem =>
        obtain rfl := (Prod.mk.inj (List.mem_singleton.1 hmem)).1
        decide
      | dict hmem hkey =>
        rw [(Prod.mk.inj (List.mem_singleton.1 hmem)).2] at hkey
        cases hkey with
        | list hmem hkey =>
          rw [List.mem_singleton.1 hmem] at hkey
          cases hkey
    · intro text _
      refine Or.inr fun s hs hassembled => ?_
      obtain rfl := List.mem_singleton.1 hs
      exact absurd (infix_redacted_of_assembled (by decide) (by decide) hassembled) (by decide))

/-- A secret in a key; one that is in the marker; and one that begins as the marker ends. -/
theorem not_clean_redactObj :
    (let secret := ['h', 'u', 'n', 't', 'e', 'r', '2', '7']
      let registry := Registry.empty.register (some secret)
      ¬ Clean registry (redactObj registry (.dict [(secret, .none)]))) ∧
    (let secret := ['r', 'e', 'd', 'a', 'c', 't', 'e', 'd']
      let registry := Registry.empty.register (some secret)
      ¬ Clean registry (redactObj registry (.str secret))) ∧
    (let secret := [']', 'x', 'x', 'x', 'x', 'x', 'x', 'x']
      let registry := Registry.empty.register (some secret)
      ¬ Clean registry (redactObj registry
        (.str (secret ++ ['x', 'x', 'x', 'x', 'x', 'x', 'x'])))) := by
  refine ⟨fun h => ?_, fun h => ?_, fun h => ?_⟩
  · refine h _ (Or.inr (key_redactObj.2 (Obj.Key.here List.mem_cons_self))) _
      List.mem_cons_self List.infix_rfl
  · refine h _ (Or.inl (leaf_redactObj.2 ⟨_, Obj.Leaf.str, rfl⟩)) _ List.mem_cons_self ?_
    decide
  · refine h _ (Or.inl (leaf_redactObj.2 ⟨_, Obj.Leaf.str, rfl⟩)) _ List.mem_cons_self ?_
    decide

end object

end EarthdataMcp
