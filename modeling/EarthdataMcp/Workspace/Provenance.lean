import EarthdataMcp.Redaction
import EarthdataMcp.Text.Fields
import EarthdataMcp.Text.Paths
import EarthdataMcp.Workspace.Ancestry

/-!
# Recording an edge

An edge of the provenance graph is recorded with the request specification it can be
materialized from again, unless a guard finds the URL of a staged output in it.

* `recordEdge`, and the guard `rejectUrlSpec` with the texts it looks at;
* `Spoken`, the texts outside the values of the durable keys, and `staged`, those that begin
  as a staged URL does;
* `recordEdge_keepsOut_iff`: when no staged URL is recorded.
-/

namespace EarthdataMcp

open Text

/-- `_URL_PREFIXES`. -/
def urlPrefixes : List (List Char) :=
  [['h', 't', 't', 'p', ':', '/', '/'], ['h', 't', 't', 'p', 's', ':', '/', '/'],
    ['s', '3', ':', '/', '/'], ['g', 's', ':', '/', '/']]

/-- `_DURABLE_URL_KEYS`. -/
def durableUrlKeys : List (List Char) :=
  [['o', 'p', 'e', 'n', 'd', 'a', 'p', '_', 'u', 'r', 'l'],
    ['o', 'p', 'e', 'n', 'd', 'a', 'p', '_', 'u', 'r', 'l', 's']]

/-- The key may hold a URL. -/
def isDurable (key : List Char) : Prop := ∃ k ∈ durableUrlKeys, key = k

instance : DecidablePred isDurable := fun _ =>
  inferInstanceAs (Decidable (∃ k ∈ durableUrlKeys, _ = k))

/-- A `dict` as its items, in order. -/
abbrev Entries := List (List Char × Obj)

inductive ProvenanceError
  | stagedUrl
  deriving DecidableEq

namespace ProvenanceError

def message : ProvenanceError → String
  | stagedUrl => "request_spec must be re-materializable, not a staged-output URL"

end ProvenanceError

/-- A row of the table of edges. -/
structure EdgeRow (W H : Type) extends ProvenanceEdge W H where
  requestSpec : Option Entries
  granuleIds : Option (List String)

/-- What the guard looks at: the items of a list, and every other value as it is, unless their
key is a durable one. -/
def urlCandidates (requestSpec : Entries) : List Obj :=
  (requestSpec.filter fun e => ¬ isDurable e.1).flatMap fun e =>
    match e.2 with
    | .list items => items
    | value => [value]

section guard

variable (fold : Lowering)

/-- `item.lower().startswith(_URL_PREFIXES)`. -/
def startsAsUrl (text : List Char) : Prop := ∃ p ∈ urlPrefixes, p <+: fold.lower text

instance : DecidablePred (startsAsUrl fold) := fun _ =>
  inferInstanceAs (Decidable (∃ p ∈ urlPrefixes, _))

/-- The item is a text that starts as a URL does. -/
def isUrl : Obj → Bool
  | .str text => startsAsUrl fold text
  | _ => false

/-- `_reject_url_spec`. -/
def rejectUrlSpec : Option Entries → Except ProvenanceError Unit
  | none => .ok ()
  | some requestSpec =>
      if (urlCandidates requestSpec).any (isUrl fold) then .error .stagedUrl else .ok ()

/-- `redact_obj` on the items of a dictionary. -/
def redactSpec (registry : Registry) (requestSpec : Option Entries) : Option Entries :=
  requestSpec.map fun entries =>
    if registry.secrets = [] then entries else redactEntries registry entries

variable {W H : Type}

/-- `record_edge`: the row that is added. -/
def recordEdge (registry : Registry) (row : EdgeRow W H) : Except ProvenanceError (EdgeRow W H) := do
  let requestSpec := redactSpec registry row.requestSpec
  rejectUrlSpec fold requestSpec
  return { row with requestSpec := requestSpec }

end guard

/-! ### Staged URLs -/

/-- The text stands in the object, as a key or as a value, outside the values of durable keys. -/
inductive Spoken (text : List Char) : Obj → Prop
  | str : Spoken text (.str text)
  | list {item : Obj} {items : List Obj} (hmem : item ∈ items) (h : Spoken text item) :
      Spoken text (.list items)
  | tuple {item : Obj} {items : List Obj} (hmem : item ∈ items) (h : Spoken text item) :
      Spoken text (.tuple items)
  | key {value : Obj} {entries : Entries} (hmem : (text, value) ∈ entries) :
      Spoken text (.dict entries)
  | dict {key : List Char} {value : Obj} {entries : Entries} (hmem : (key, value) ∈ entries)
      (hkey : ¬ isDurable key) (h : Spoken text value) : Spoken text (.dict entries)

section staged

variable (fold : Lowering)

/-- The text begins, without regard to case and leading white space, as a staged URL does. -/
def staged (text : List Char) : Prop := startsAsUrl fold (lstrip text)

/-- No staged URL is in the specification of the row. -/
def KeepsOut {W H : Type} (row : EdgeRow W H) : Prop :=
  ∀ entries ∈ row.requestSpec, ∀ text, Spoken text (.dict entries) → ¬ staged fold text

/-- The text stands where the guard does not look, or where it looks but behind white space: as a
key, deeper than directly in a list, or with a space before it. -/
def Unseen (text : List Char) (entries : Entries) : Prop :=
  (∃ value, (text, value) ∈ entries) ∨
    (∃ item ∈ urlCandidates entries, (∀ s, item ≠ .str s) ∧ Spoken text item) ∨
    .str text ∈ urlCandidates entries ∧ ∃ c ∈ text.head?, isSpace c

end staged

section spoken

variable {text : List Char} {entries : Entries}

/-- What stands in an object is a key of it, or stands in something that the guard looks at. -/
theorem spoken_dict_iff :
    Spoken text (.dict entries) ↔
      (∃ value, (text, value) ∈ entries) ∨ ∃ item ∈ urlCandidates entries, Spoken text item := by
  unfold urlCandidates
  simp only [List.mem_flatMap, List.mem_filter, decide_eq_true_eq, Prod.exists]
  constructor
  · intro h
    cases h with
    | key hmem => exact Or.inl ⟨_, hmem⟩
    | @dict key value _ hmem hkey h =>
      right
      cases h with
      | list hitem h => exact ⟨_, ⟨key, _, ⟨hmem, hkey⟩, hitem⟩, h⟩
      | str => exact ⟨_, ⟨key, _, ⟨hmem, hkey⟩, List.mem_singleton.2 rfl⟩, Spoken.str⟩
      | tuple hitem h =>
        exact ⟨_, ⟨key, _, ⟨hmem, hkey⟩, List.mem_singleton.2 rfl⟩, Spoken.tuple hitem h⟩
      | key hentry => exact ⟨_, ⟨key, _, ⟨hmem, hkey⟩, List.mem_singleton.2 rfl⟩, Spoken.key hentry⟩
      | dict hentry hkey' h =>
        exact ⟨_, ⟨key, _, ⟨hmem, hkey⟩, List.mem_singleton.2 rfl⟩, Spoken.dict hentry hkey' h⟩
  · rintro (⟨value, hmem⟩ | ⟨item, ⟨key, value, ⟨hmem, hkey⟩, hitem⟩, h⟩)
    · exact Spoken.key hmem
    · apply Spoken.dict hmem hkey
      cases value with
      | list items => exact Spoken.list hitem h
      | _ =>
        rw [← List.mem_singleton.1 hitem]
        exact h

end spoken

/-! ### What is recorded -/

section recorded

variable {fold : Lowering} {W H : Type} {registry : Registry} {row : EdgeRow W H}
  {entries : Entries}

theorem rejectUrlSpec_some :
    rejectUrlSpec fold (some entries) = .ok () ↔
      ∀ text, .str text ∈ urlCandidates entries → ¬ startsAsUrl fold text := by
  rw [rejectUrlSpec]
  by_cases h : (urlCandidates entries).any (isUrl fold) = true
  · rw [if_pos h]
    refine iff_of_false (by simp) fun hall => ?_
    obtain ⟨item, hitem, hurl⟩ := List.any_eq_true.1 h
    cases item with
    | str text => exact hall text hitem (of_decide_eq_true hurl)
    | _ => exact Bool.noConfusion hurl
  · rw [if_neg h]
    refine iff_of_true rfl fun text hitem hurl => h ?_
    exact List.any_eq_true.2 ⟨_, hitem, decide_eq_true hurl⟩

theorem recordEdge_eq_ok {stored : EdgeRow W H} :
    recordEdge fold registry row = .ok stored ↔
      rejectUrlSpec fold (redactSpec registry row.requestSpec) = .ok () ∧
        stored = { row with requestSpec := redactSpec registry row.requestSpec } := by
  unfold recordEdge
  cases h : rejectUrlSpec fold (redactSpec registry row.requestSpec) with
  | error e => simp [h, bind, Except.bind]
  | ok u => simp [h, bind, Except.bind, pure, Except.pure, eq_comm]

/-- A staged URL of a specification is one that the guard does not see, or one that it sees. -/
theorem unseen_or_startsAsUrl {text : List Char} (h : Spoken text (.dict entries))
    (hstaged : staged fold text) :
    Unseen text entries ∨ ∃ t, .str t ∈ urlCandidates entries ∧ startsAsUrl fold t := by
  rcases spoken_dict_iff.1 h with hkey | ⟨item, hitem, hspoken⟩
  · exact Or.inl (Or.inl hkey)
  · by_cases hstr : ∃ t, item = .str t
    · obtain ⟨t, rfl⟩ := hstr
      cases hspoken
      by_cases hspace : ∃ c ∈ text.head?, isSpace c
      · exact Or.inl (Or.inr (Or.inr ⟨hitem, hspace⟩))
      · push Not at hspace
        unfold staged at hstaged
        rw [lstrip_of_head hspace] at hstaged
        exact Or.inr ⟨text, hitem, hstaged⟩
    · exact Or.inl (Or.inr (Or.inl ⟨item, hitem, fun t ht => hstr ⟨t, ht⟩, hspoken⟩))

theorem spoken_of_unseen {text : List Char} (h : Unseen text entries) :
    Spoken text (.dict entries) := by
  rw [spoken_dict_iff]
  rcases h with hkey | ⟨item, hitem, -, hspoken⟩ | ⟨hitem, -⟩
  · exact Or.inl hkey
  · exact Or.inr ⟨item, hitem, hspoken⟩
  · exact Or.inr ⟨_, hitem, Spoken.str⟩

/-- No staged URL is recorded, if one that the guard sees makes it refuse the specification, or
none stands where it does not look. -/
theorem recordEdge_keepsOut_iff (fold : Lowering) (registry : Registry) (row : EdgeRow W H) :
    (∀ stored, recordEdge fold registry row = .ok stored → KeepsOut fold stored) ↔
      ∀ entries ∈ redactSpec registry row.requestSpec,
        (∃ text, .str text ∈ urlCandidates entries ∧ startsAsUrl fold text) ∨
          ∀ text, Unseen text entries → ¬ staged fold text := by
  constructor
  · intro h entries hentries
    by_cases hseen : ∃ text, .str text ∈ urlCandidates entries ∧ startsAsUrl fold text
    · exact Or.inl hseen
    · right
      push Not at hseen
      intro text hunseen
      have hok : rejectUrlSpec fold (redactSpec registry row.requestSpec) = .ok () := by
        rw [Option.mem_def.1 hentries]
        exact rejectUrlSpec_some.2 hseen
      exact h _ (recordEdge_eq_ok.2 ⟨hok, rfl⟩) entries hentries text (spoken_of_unseen hunseen)
  · rintro h stored hstored entries hentries text hspoken hstaged
    obtain ⟨hok, rfl⟩ := recordEdge_eq_ok.1 hstored
    have hsome : redactSpec registry row.requestSpec = some entries := hentries
    rw [hsome] at hok
    have haccepted := rejectUrlSpec_some.1 hok
    rcases h entries hentries with ⟨t, hitem, hurl⟩ | hunseen
    · exact haccepted t hitem hurl
    · rcases unseen_or_startsAsUrl hspoken hstaged with hmem | ⟨t, hitem, hurl⟩
      · exact hunseen text hmem hstaged
      · exact haccepted t hitem hurl

/-- A staged URL in a list that is itself in a list is recorded. -/
theorem not_recordEdge_keepsOut :
    let url := ['s', '3', ':', '/', '/', 'b']
    let row : EdgeRow ℕ ℕ := ⟨⟨0, 1, 2⟩, some [(['u'], .list [.list [.str url]])], none⟩
    ∃ stored, recordEdge .ascii .empty row = .ok stored ∧ ¬ KeepsOut .ascii stored := by
  intro url row
  refine ⟨row, recordEdge_eq_ok.2 ⟨rejectUrlSpec_some.2 ?_, rfl⟩, fun h => ?_⟩
  · intro text hitem
    exact absurd (List.mem_singleton.1 hitem) (by simp)
  · refine h _ rfl url ?_ (by unfold staged; decide)
    exact Spoken.dict List.mem_cons_self (by decide)
      (Spoken.list List.mem_cons_self (Spoken.list List.mem_cons_self Spoken.str))

end recorded

end EarthdataMcp
