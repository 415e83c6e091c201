import EarthdataMcp.Lists.Collect

/-!
# JSON values as Python reads them

A JSON value is read back as Python's own: the reading operations accept more kinds of value than
they are meant for, and what they do not accept they refuse with one of several exceptions.

* `Json`, `truthy`, and the readers `iter`, `items`, `item` and `nth`;
* one lemma for each reader on what its writer has written;
* `Escapes`: a reading ends in the one exception that is not caught, and how that follows the
  steps of the reading.
-/

namespace Text

/-- A JSON value; the keys of an object are in the order they were written in. -/
inductive Json
  | null
  | bool (b : Bool)
  | num (q : ℚ)
  | str (s : String)
  | arr (xs : List Json)
  | obj (entries : List (String × Json))

/-- The exceptions that reading a value can end in. -/
inductive ReadError
  | keyError
  | typeError
  | valueError
  | indexError
  | attributeError
  deriving DecidableEq, Repr

/-- The name of an exception. -/
def ReadError.name : ReadError → String
  | keyError => "KeyError"
  | typeError => "TypeError"
  | valueError => "ValueError"
  | indexError => "IndexError"
  | attributeError => "AttributeError"

/-- `except (KeyError, TypeError, ValueError, IndexError)`. -/
def ReadError.caught : ReadError → Bool
  | attributeError => false
  | _ => true

namespace Json

/-- `bool(v)`. -/
def truthy : Json → Bool
  | null => false
  | bool b => b
  | num q => q ≠ 0
  | str s => s ≠ ""
  | arr xs => !xs.isEmpty
  | obj entries => !entries.isEmpty

/-- `tuple(v)`: the members of an array, the characters of a text, or the keys of an object. -/
def iter : Json → Except ReadError (List Json)
  | arr xs => .ok xs
  | str s => .ok (s.toList.map fun c => .str (String.singleton c))
  | obj entries => .ok (entries.map fun e => .str e.1)
  | _ => .error .typeError

/-- `tuple(v or ())`. -/
def iterOrNil (v : Json) : Except ReadError (List Json) := if v.truthy then v.iter else .ok []

/-- `v.items()`. -/
def items : Json → Except ReadError (List (String × Json))
  | obj entries => .ok entries
  | _ => .error .attributeError

/-- `v[key]`. -/
def item (key : String) : Json → Except ReadError Json
  | obj entries =>
      match entries.lookup key with
      | some v => .ok v
      | none => .error .keyError
  | _ => .error .typeError

/-- `v[i]`. -/
def nth (i : ℕ) : Json → Except ReadError Json
  | arr xs =>
      match xs[i]? with
      | some v => .ok v
      | none => .error .indexError
  | str s =>
      match s.toList[i]? with
      | some c => .ok (.str (String.singleton c))
      | none => .error .indexError
  | obj _ => .error .keyError
  | _ => .error .typeError

/-- `data.get(key)`. -/
def get (data : List (String × Json)) (key : String) : Json := (data.lookup key).getD null

/-- `v.get(key, default)`. -/
def getOr (v : Json) (key : String) (default : Json) : Except ReadError Json :=
  match v with
  | obj entries => .ok ((entries.lookup key).getD default)
  | _ => .error .attributeError

/-- The value is this text. -/
def isText (text : String) : Json → Bool
  | str s => s = text
  | _ => false

/-- `v or default`. -/
def orElse (v default : Json) : Json := if v.truthy then v else default

/-- A text or `null`. -/
def ofText (s : Option String) : Json := (s.map str).getD null

/-! ### What is written is read -/

/-- What is written as an array is read as its members. -/
@[simp] theorem iterOrNil_arr (xs : List Json) : (arr xs).iterOrNil = .ok xs := by
  cases xs <;> rfl

theorem getOr_eq_ok {key : String} {default v x : Json} (h : v.getOr key default = .ok x) :
    ∃ entries, v = obj entries ∧ x = (entries.lookup key).getD default := by
  cases v with
  | obj entries => exact ⟨entries, rfl, (Except.ok.inj h).symm⟩
  | _ => cases h

@[simp] theorem iterOrNil_null : null.iterOrNil = .ok [] := rfl

theorem orElse_str {s : String} (h : s ≠ "") (default : Json) : (str s).orElse default = str s := by
  have htruthy : (str s).truthy = true := decide_eq_true h
  exact if_pos htruthy

@[simp] theorem orElse_str_empty (default : Json) : (str "").orElse default = default := rfl

/-- A text that stands where the default is the empty one. -/
theorem orElse_empty (s : String) : (str s).orElse (str "") = str s := by
  by_cases h : s = ""
  · rw [h, orElse_str_empty]
  · exact orElse_str h _

/-! ### Kinds of values -/

/-- The value is one that Python can iterate over. -/
def Iterable (v : Json) : Prop := (∃ xs, v = arr xs) ∨ (∃ s, v = str s) ∨ ∃ entries, v = obj entries

/-- The value is an object. -/
def IsObj (v : Json) : Prop := ∃ entries, v = obj entries

/-- The value is an object, all of whose values are of a kind. -/
def ObjOf (P : Json → Prop) (v : Json) : Prop := ∃ entries, v = obj entries ∧ ∀ e ∈ entries, P e.2

/-- The value is an object with these keys. -/
def HasKeys (keys : List String) (v : Json) : Prop :=
  ∃ entries, v = obj entries ∧ ∀ key ∈ keys, (entries.lookup key).isSome

/-- The value is of a kind, or counts as empty. -/
def EmptyOr (P : Json → Prop) (v : Json) : Prop := v.truthy = true → P v

/-! ### Readings that succeed -/

section reads

variable {α β : Type}

/-- The reading does not raise. -/
def Reads (m : Except ReadError α) : Prop := ∃ a, m = .ok a

@[simp] theorem reads_ok (a : α) : Reads (.ok a : Except ReadError α) := ⟨a, rfl⟩

theorem reads_pure (a : α) : Reads (pure a : Except ReadError α) := ⟨a, rfl⟩

@[simp] theorem not_reads_error (e : ReadError) : ¬ Reads (.error e : Except ReadError α) := by
  rintro ⟨a, h⟩
  cases h

theorem reads_bind {m : Except ReadError α} {f : α → Except ReadError β} :
    Reads (m >>= f) ↔ ∃ a, m = .ok a ∧ Reads (f a) := by
  cases m with
  | error e =>
    show (∃ b, Except.error e = .ok b) ↔ _
    simp
  | ok a =>
    show Reads (f a) ↔ _
    simp

/-- A reading in two steps that do not depend on each other. -/
theorem reads_bind_iff {m : Except ReadError α} {f : α → Except ReadError β} {P : Prop}
    (h : ∀ a, Reads (f a) ↔ P) : Reads (m >>= f) ↔ Reads m ∧ P := by
  rw [reads_bind]
  constructor
  · rintro ⟨a, hm, hf⟩
    exact ⟨⟨a, hm⟩, (h a).1 hf⟩
  · rintro ⟨⟨a, hm⟩, hP⟩
    exact ⟨a, hm, (h a).2 hP⟩

/-- What the second step of a reading yields, whatever the first has read. -/
theorem yields_bind {m : Except ReadError α} {f : α → Except ReadError β} {Q : β → Prop}
    (h : ∀ a b, f a = .ok b → Q b) : ∀ b, m >>= f = .ok b → Q b := by
  intro b hb
  cases m with
  | error e => cases hb
  | ok a => exact h a b hb

/-- A list is read if each of its members is. -/
theorem reads_mapM {f : α → Except ReadError β} {xs : List α} :
    Reads (xs.mapM f) ↔ ∀ x ∈ xs, Reads (f x) := by
  induction xs with
  | nil => exact iff_of_true (reads_ok _) (by simp)
  | cons x xs ih =>
    rw [List.mapM_cons, List.forall_mem_cons, reads_bind, ← ih]
    constructor
    · rintro ⟨y, hy, hrest⟩
      obtain ⟨ys, hys, -⟩ := reads_bind.1 hrest
      exact ⟨⟨y, hy⟩, ⟨ys, hys⟩⟩
    · rintro ⟨⟨y, hy⟩, ys, hys⟩
      exact ⟨y, hy, reads_bind.2 ⟨ys, hys, reads_ok _⟩⟩

theorem reads_iter (v : Json) : Reads v.iter ↔ v.Iterable := by
  unfold Iterable
  cases v <;> simp [iter]

theorem reads_iterOrNil (v : Json) : Reads v.iterOrNil ↔ v.EmptyOr Iterable := by
  unfold iterOrNil EmptyOr
  split_ifs with h
  · simp [reads_iter, h]
  · simp [h]

theorem reads_item {key : String} {v : Json} :
    Reads (v.item key) ↔ ∃ entries, v = obj entries ∧ (entries.lookup key).isSome := by
  cases v
  case obj entries =>
    unfold item
    dsimp only
    cases h : entries.lookup key with
    | none =>
      apply iff_of_false (not_reads_error _)
      rintro ⟨entries', heq, hsome⟩
      obtain rfl := obj.inj heq
      rw [h] at hsome
      cases hsome
    | some v => exact iff_of_true (reads_ok _) ⟨entries, rfl, by rw [h]; rfl⟩
  all_goals simp [item]

theorem reads_nth {i : ℕ} {v : Json} :
    Reads (v.nth i) ↔ (∃ xs, v = arr xs ∧ i < xs.length) ∨ ∃ s, v = str s ∧ i < s.toList.length := by
  cases v
  case arr xs =>
    unfold nth
    by_cases h : i < xs.length <;> simp [h]
  case str s =>
    unfold nth
    by_cases h : i < s.toList.length <;> simp [h]
  all_goals simp [nth]

end reads

/-! ### Exceptions that escape -/

section escapes

variable {α β : Type} {m : Except ReadError α}

/-- The reading ends in an exception that is not caught. -/
def Escapes (m : Except ReadError α) : Prop := ∃ e, m = .error e ∧ e.caught = false

@[simp] theorem not_escapes_ok (a : α) : ¬ Escapes (.ok a : Except ReadError α) := by
  rintro ⟨e, h, -⟩
  cases h

theorem not_escapes_pure (a : α) : ¬ Escapes (pure a : Except ReadError α) := not_escapes_ok a

theorem not_escapes_error {e : ReadError} (h : e.caught = true) :
    ¬ Escapes (.error e : Except ReadError α) := by
  rintro ⟨e', heq, hcaught⟩
  obtain rfl := Except.error.inj heq
  exact Bool.false_ne_true (hcaught.symm.trans h)

/-- A reading in two steps escapes from the first, or from what comes after it. -/
theorem escapes_bind {f : α → Except ReadError β} :
    Escapes (m >>= f) ↔ Escapes m ∨ ∃ a, m = .ok a ∧ Escapes (f a) := by
  cases m with
  | error e =>
    show (∃ e', Except.error e = .error e' ∧ _) ↔ (∃ e', Except.error e = .error e' ∧ _) ∨ _
    simp
  | ok a =>
    show Escapes (f a) ↔ _
    simp

/-- A reading in two steps, of which the second does not depend on the first. -/
theorem escapes_bind_iff {f : α → Except ReadError β} {P : Prop} (h : ∀ a, Escapes (f a) ↔ P) :
    Escapes (m >>= f) ↔ Escapes m ∨ Reads m ∧ P := by
  rw [escapes_bind]
  apply or_congr_right
  constructor
  · rintro ⟨a, hm, hf⟩
    exact ⟨⟨a, hm⟩, (h a).1 hf⟩
  · rintro ⟨⟨a, hm⟩, hP⟩
    exact ⟨a, hm, (h a).2 hP⟩

theorem not_escapes_bind {f : α → Except ReadError β} (hm : ¬ Escapes m)
    (hf : ∀ a, ¬ Escapes (f a)) : ¬ Escapes (m >>= f) := by
  rw [escapes_bind]
  rintro (h | ⟨a, -, h⟩)
  · exact hm h
  · exact hf a h

theorem not_escapes_mapM {f : β → Except ReadError α} {xs : List β}
    (h : ∀ x ∈ xs, ¬ Escapes (f x)) : ¬ Escapes (xs.mapM f) := by
  induction xs with
  | nil => exact not_escapes_ok _
  | cons x xs ih =>
    obtain ⟨hx, hxs⟩ := List.forall_mem_cons.1 h
    rw [List.mapM_cons]
    apply not_escapes_bind hx
    intro a
    apply not_escapes_bind (ih hxs)
    intro as
    exact not_escapes_ok _

theorem not_escapes_iter (v : Json) : ¬ Escapes v.iter := by
  cases v
  case arr | str | obj => exact not_escapes_ok _
  all_goals exact not_escapes_error rfl

theorem not_escapes_iterOrNil (v : Json) : ¬ Escapes v.iterOrNil := by
  unfold iterOrNil
  split_ifs
  · exact not_escapes_iter v
  · exact not_escapes_ok _

theorem not_escapes_item (key : String) (v : Json) : ¬ Escapes (v.item key) := by
  cases v
  case obj entries =>
    unfold item
    dsimp only
    split
    · exact not_escapes_ok _
    · exact not_escapes_error rfl
  all_goals exact not_escapes_error rfl

theorem not_escapes_nth (i : ℕ) (v : Json) : ¬ Escapes (v.nth i) := by
  cases v
  case arr | str =>
    unfold nth
    dsimp only
    split
    · exact not_escapes_ok _
    · exact not_escapes_error rfl
  all_goals exact not_escapes_error rfl

/-- Only the entries of what is no object escape. -/
theorem escapes_items (v : Json) : Escapes v.items ↔ ¬ v.IsObj := by
  cases v
  case obj entries => exact iff_of_false (not_escapes_ok _) fun h => h ⟨entries, rfl⟩
  all_goals exact iff_of_true ⟨_, rfl, rfl⟩ fun ⟨_, h⟩ => by cases h

end escapes

end Json

end Text
