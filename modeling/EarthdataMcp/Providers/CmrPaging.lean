import Mathlib.Tactic

/-!
# Paging through CMR

A search is answered in pages, each with a cursor for the one after it, and a long list of ids is
searched for in batches. Both give what one search without a bound would.

* `SearchAfter`, how the server pages through its list of results;
* `search` and `search_eq`: the first items of the list, as many as were asked for;
* `getVariables` and `getVariables_perm`: the records of all the ids.
-/

namespace EarthdataMcp

/-! ### A search -/

/-- `_PAGE_SIZE`. -/
def cmrPageSize : ℕ := 500

section search

variable {Item : Type}

/-- What the server answers to a request: for a page size and the cursor in its header, if there
is one, the page and the cursor in the header of the response. -/
abbrev PageServer (Item : Type) := ℕ → Option String → List Item × Option String

/-- The loop of `_search`; nothing if it has not come to its end. A cursor that is empty counts as
none. -/
def searchLoop (server : PageServer Item) (limit : ℕ) :
    ℕ → List Item → Option String → Option (List Item)
  | 0, _, _ => none
  | fuel + 1, items, searchAfter =>
      if items.length < limit then
        let pageSize := min limit cmrPageSize
        let (page, header) := server pageSize (searchAfter.filter (· ≠ ""))
        if header.getD "" = "" ∨ page.length < pageSize then some (items ++ page)
        else searchLoop server limit fuel (items ++ page) header
      else some items

/-- `_search`. -/
def search (server : PageServer Item) (limit fuel : ℕ) : Option (List Item) :=
  (searchLoop server limit fuel [] none).map (List.take limit)

/-- Where a request starts; without a cursor, at the beginning. -/
def startOf (position : String → Option ℕ) : Option String → Option ℕ
  | none => some 0
  | some cursor => position cursor

/-- The answer to a request that starts somewhere in the results: the next items, as many as fit,
and the cursor of their end, unless there are none. -/
def AnswersFrom (position : String → Option ℕ) (results : List Item) (pageSize start : ℕ)
    (answer : List Item × Option String) : Prop :=
  answer.1 = (results.drop start).take pageSize ∧
    (answer.1 ≠ [] → ∃ cursor ≠ "",
      answer.2 = some cursor ∧ position cursor = some (start + answer.1.length))

/-- The `CMR-Search-After` protocol, for cursors that stand for these positions. -/
def PagesBy (position : String → Option ℕ) (server : PageServer Item) (results : List Item) : Prop :=
  ∀ pageSize searchAfter start, startOf position searchAfter = some start →
    AnswersFrom position results pageSize start (server pageSize searchAfter)

/-- The server follows the protocol. -/
def SearchAfter (server : PageServer Item) (results : List Item) : Prop :=
  ∃ position, PagesBy position server results

variable {server : PageServer Item} {results : List Item} {limit : ℕ}
  {position : String → Option ℕ}

/-- What the loop does with an answer: it has the next items, and if the loop ends here, there are
no more. -/
theorem AnswersFrom.next {pageSize start : ℕ} {answer : List Item × Option String}
    (h : AnswersFrom position results pageSize start answer) (hsize : 0 < pageSize)
    (hstart : start ≤ results.length) :
    results.take start ++ answer.1 = results.take (start + answer.1.length) ∧
      (answer.2.getD "" = "" ∨ answer.1.length < pageSize →
        results.length = start + answer.1.length) ∧
      start + answer.1.length ≤ results.length := by
  obtain ⟨hpage, hcursor⟩ := h
  have hlength : answer.1.length = min pageSize (results.length - start) := by
    rw [hpage, List.length_take, List.length_drop]
  refine ⟨?_, fun hend => ?_, by omega⟩
  · rw [hpage, List.take_add]
    congr 1
    rw [List.length_take, List.length_drop, List.take_eq_take_iff, List.length_drop]
    omega
  · rcases hend with hnone | hshort
    · by_cases hempty : answer.1 = []
      · rw [hempty, List.length_nil] at hlength ⊢
        omega
      · obtain ⟨cursor, hne, hheader, -⟩ := hcursor hempty
        rw [hheader] at hnone
        exact absurd hnone hne
    · omega

/-- The loop goes on from the items it has got, and gets all that are left or enough of them. -/
theorem searchLoop_eq (h : PagesBy position server results) (fuel start : ℕ)
    (searchAfter : Option String) (hstart : start ≤ results.length)
    (hcursor : startOf position (searchAfter.filter (· ≠ "")) = some start)
    (hfuel : limit - start < fuel) :
    ∃ found, searchLoop server limit fuel (results.take start) searchAfter = some found ∧
      found.take limit = results.take limit := by
  induction fuel generalizing start searchAfter with
  | zero => omega
  | succ fuel ih =>
    have hitems : (results.take start).length = start := List.length_take_of_le hstart
    unfold searchLoop
    by_cases hmore : start < limit
    · have hsize : 0 < min limit cmrPageSize := lt_min (by omega) (by decide)
      have hanswer := h (min limit cmrPageSize) _ start hcursor
      obtain ⟨hnext, hlast, hle⟩ := hanswer.next hsize hstart
      rw [if_pos (by rwa [hitems])]
      dsimp only
      rw [hnext]
      split_ifs with hend
      · refine ⟨_, rfl, ?_⟩
        rw [← hlast hend, List.take_length]
      · -- the page is full, so it carries the cursor of its end
        rw [not_or, not_lt] at hend
        have hne : (server (min limit cmrPageSize) (searchAfter.filter (· ≠ ""))).1 ≠ [] := by
          intro hempty
          rw [hempty, List.length_nil] at hend
          omega
        obtain ⟨cursor, hcursor', hheader, hposition⟩ := hanswer.2 hne
        refine ih _ _ hle ?_ (by omega)
        rw [hheader, Option.filter_some, if_pos (decide_eq_true hcursor')]
        exact hposition
    · rw [if_neg (by rwa [hitems])]
      refine ⟨_, rfl, ?_⟩
      rw [List.take_take, min_eq_left (not_lt.1 hmore)]

/-- A search ends, and finds the first items, as many as were asked for. -/
theorem search_eq (h : SearchAfter server results) (limit : ℕ) {fuel : ℕ} (hfuel : limit < fuel) :
    search server limit fuel = some (results.take limit) := by
  obtain ⟨position, h⟩ := h
  obtain ⟨found, hfound, htake⟩ := searchLoop_eq h fuel 0 none (Nat.zero_le _) rfl hfuel
  rw [List.take_zero] at hfound
  unfold search
  rw [hfound, Option.map_some, htake]

end search

/-! ### Variables by their ids -/

/-- `_VARIABLE_ID_BATCH_SIZE`. -/
def variableIdBatchSize : ℕ := 100

/-- What variables are searched by. -/
structure VariableQuery where
  conceptIds : List String
  keyword : Option String

/-- `ids[i : i + _VARIABLE_ID_BATCH_SIZE]`, for each `i` that the loop comes to. -/
def idBatches (ids : List String) : List (List String) :=
  (List.range ((ids.length + (variableIdBatchSize - 1)) / variableIdBatchSize)).map fun k =>
    (ids.drop (k * variableIdBatchSize)).take variableIdBatchSize

section batches

/-- `get_variables` for a collection with these associations; nothing if a search has not come to
its end. -/
def getVariables {Item Record : Type} (server : VariableQuery → PageServer Item)
    (normalize : Item → Record) (ids : List String) (keyword : Option String) (fuel : ℕ) :
    Option (List Record) := do
  let pages ← (idBatches ids).mapM fun batch =>
    search (server ⟨batch, keyword.filter (· ≠ "")⟩) batch.length fuel
  return pages.flatten.map normalize

theorem mapM_eq_some_map {α β : Type} {f : α → Option β} {g : α → β} {xs : List α}
    (h : ∀ x ∈ xs, f x = some (g x)) : xs.mapM f = some (xs.map g) := by
  induction xs with
  | nil => rfl
  | cons x xs ih =>
    rw [List.mapM_cons, h x List.mem_cons_self, ih fun y hy => h y (List.mem_cons_of_mem _ hy)]
    rfl

theorem flatten_batches (ids : List String) (n : ℕ) :
    ((List.range n).map fun k => (ids.drop (k * variableIdBatchSize)).take
      variableIdBatchSize).flatten = ids.take (n * variableIdBatchSize) := by
  induction n with
  | zero => simp
  | succ n ih =>
    rw [List.range_succ, List.map_append, List.flatten_append, ih, Nat.succ_mul, List.take_add]
    simp

/-- The batches are the ids, cut. -/
theorem flatten_idBatches (ids : List String) : (idBatches ids).flatten = ids := by
  unfold idBatches
  rw [flatten_batches, List.take_of_length_le]
  unfold variableIdBatchSize
  omega

theorem length_of_mem_idBatches {ids batch : List String} (h : batch ∈ idBatches ids) :
    batch.length ≤ variableIdBatchSize := by
  obtain ⟨k, -, rfl⟩ := List.mem_map.1 h
  exact List.length_take_le _ _

end batches

/-! ### What the server knows -/

section catalogue

variable {Item Record : Type}

/-- The variables the server knows, each by its concept id, and which of them match a keyword. -/
structure VariableCatalogue (Item : Type) where
  items : List Item
  conceptId : Item → String
  matchesKeyword : Option String → Item → Bool
  nodup : (items.map conceptId).Nodup

namespace VariableCatalogue

variable (c : VariableCatalogue Item)

/-- The variables that a query is for. -/
def found (q : VariableQuery) : List Item :=
  c.items.filter fun item => q.conceptIds.any (· = c.conceptId item) &&
    c.matchesKeyword q.keyword item

/-- The server finds the variables of a query, in whatever order, and pages through them. -/
def ServedBy (server : VariableQuery → PageServer Item) (results : VariableQuery → List Item) :
    Prop :=
  ∀ q, SearchAfter (server q) (results q) ∧ (results q).Perm (c.found q)

variable {c}

/-- There is at most one variable for each id. -/
theorem length_found_le (q : VariableQuery) : (c.found q).length ≤ q.conceptIds.length := by
  have hnodup : ((c.found q).map c.conceptId).Nodup :=
    c.nodup.sublist (List.filter_sublist.map _)
  have hsub : (c.found q).map c.conceptId ⊆ q.conceptIds := by
    intro id hid
    obtain ⟨item, hitem, rfl⟩ := List.mem_map.1 hid
    have hany := (Bool.and_eq_true_iff.1 (List.mem_filter.1 hitem).2).1
    simpa using hany
  simpa using (hnodup.subperm hsub).length_le

/-- What is found by ids of which none is in both lists. -/
theorem found_append (ids ids' : List String) (keyword : Option String)
    (hdisjoint : ids.Disjoint ids') :
    (c.found ⟨ids ++ ids', keyword⟩).Perm (c.found ⟨ids, keyword⟩ ++ c.found ⟨ids', keyword⟩) := by
  have hleft : (c.found ⟨ids ++ ids', keyword⟩).filter (fun item => ids.any (· = c.conceptId item)) =
      c.found ⟨ids, keyword⟩ := by
    unfold found
    rw [List.filter_filter]
    refine List.filter_congr fun item _ => ?_
    rw [List.any_append]
    cases ids.any (· = c.conceptId item) <;> simp
  have hright : (c.found ⟨ids ++ ids', keyword⟩).filter
      (fun item => !ids.any (· = c.conceptId item)) = c.found ⟨ids', keyword⟩ := by
    unfold found
    rw [List.filter_filter]
    refine List.filter_congr fun item _ => ?_
    rw [List.any_append]
    cases hany : ids.any (· = c.conceptId item) with
    | false => simp
    | true =>
      have hnot : ids'.any (· = c.conceptId item) = false := by
        refine List.any_eq_false.2 fun id hid => ?_
        rw [decide_eq_true_eq]
        rintro rfl
        exact hdisjoint (by simpa using hany) hid
      rw [hnot]
      rfl
  rw [← hleft, ← hright]
  exact (List.filter_append_perm _ _).symm

/-- What is found batch by batch. -/
theorem found_flatten {batches : List (List String)} (keyword : Option String)
    (hnodup : batches.flatten.Nodup) :
    (c.found ⟨batches.flatten, keyword⟩).Perm
      (batches.map fun batch => c.found ⟨batch, keyword⟩).flatten := by
  induction batches with
  | nil =>
    have hnone : c.found ⟨[], keyword⟩ = [] := List.filter_eq_nil_iff.2 fun item _ => by simp
    exact hnone ▸ List.Perm.nil
  | cons batch batches ih =>
    obtain ⟨-, hrest, hdisjoint⟩ := List.nodup_append'.1 hnodup
    exact (found_append batch batches.flatten keyword hdisjoint).trans ((ih hrest).append_left _)

/-- The batches together find the records that one query for all the ids finds. -/
theorem getVariables_perm {server : VariableQuery → PageServer Item}
    {results : VariableQuery → List Item} (h : c.ServedBy server results)
    (normalize : Item → Record) {ids : List String} (hids : ids.Nodup) (keyword : Option String)
    {fuel : ℕ} (hfuel : variableIdBatchSize < fuel) :
    ∃ records, getVariables server normalize ids keyword fuel = some records ∧
      records.Perm ((results ⟨ids, keyword.filter (· ≠ "")⟩).map normalize) := by
  have hpage : ∀ batch ∈ idBatches ids,
      search (server ⟨batch, keyword.filter (· ≠ "")⟩) batch.length fuel =
        some (results ⟨batch, keyword.filter (· ≠ "")⟩) := by
    intro batch hbatch
    obtain ⟨hserver, hperm⟩ := h ⟨batch, keyword.filter (· ≠ "")⟩
    rw [search_eq hserver _ ((length_of_mem_idBatches hbatch).trans_lt hfuel),
      List.take_of_length_le]
    rw [hperm.length_eq]
    exact length_found_le _
  have hrecords : getVariables server normalize ids keyword fuel =
      some (((idBatches ids).map fun batch =>
        results ⟨batch, keyword.filter (· ≠ "")⟩).flatten.map normalize) := by
    unfold getVariables
    rw [mapM_eq_some_map hpage]
    rfl
  refine ⟨_, hrecords, List.Perm.map _ ?_⟩
  have hbatches : ((idBatches ids).map fun batch =>
      results ⟨batch, keyword.filter (· ≠ "")⟩).flatten.Perm
        ((idBatches ids).map fun batch => c.found ⟨batch, keyword.filter (· ≠ "")⟩).flatten := by
    refine List.Perm.flatten_congr ?_
    rw [List.forall₂_map_left_iff, List.forall₂_map_right_iff, List.forall₂_same]
    exact fun batch _ => (h ⟨batch, _⟩).2
  have hall := @found_flatten Item c (idBatches ids) (keyword.filter (· ≠ ""))
    (by rwa [flatten_idBatches])
  rw [flatten_idBatches] at hall
  exact (hbatches.trans hall.symm).trans (h ⟨ids, _⟩).2.symm

end VariableCatalogue

/-- Paging loses nothing and repeats nothing: a search ends with the first items of the server's
list, as many as were asked for, and searching for variables in batches finds the records that one
search for all the ids would. -/
theorem pagingExact (Item Record : Type) :
    (∀ (server : PageServer Item) (results : List Item), SearchAfter server results →
      ∀ limit, ∃ enough, ∀ fuel ≥ enough,
        search server limit fuel = some (results.take limit)) ∧
      ∀ (c : VariableCatalogue Item) (server : VariableQuery → PageServer Item)
        (results : VariableQuery → List Item), c.ServedBy server results →
        ∀ (normalize : Item → Record) (ids : List String), ids.Nodup →
          ∀ keyword, ∃ enough, ∀ fuel ≥ enough,
            ∃ records, getVariables server normalize ids keyword fuel = some records ∧
              records.Perm ((results ⟨ids, keyword.filter (· ≠ "")⟩).map normalize) := by
  constructor
  · intro server results h limit
    exact ⟨limit + 1, fun fuel hfuel => search_eq h limit hfuel⟩
  · intro c server results h normalize ids hids keyword
    exact ⟨variableIdBatchSize + 1, fun fuel hfuel =>
      VariableCatalogue.getVariables_perm h normalize hids keyword hfuel⟩

/-! ### A server that pages -/

/-- A server whose cursors are as long as what stands before them. -/
def pageServer (results : List Item) : PageServer Item := fun pageSize searchAfter =>
  let start := (searchAfter.map fun cursor => cursor.length - 1).getD 0
  let page := (results.drop start).take pageSize
  (page, if page.isEmpty then none
    else some (String.ofList (List.replicate (start + page.length + 1) '*')))

theorem searchAfter_pageServer (results : List Item) :
    SearchAfter (pageServer results) results := by
  refine ⟨fun cursor => some (cursor.length - 1), fun pageSize searchAfter start hstart => ?_⟩
  have hstart' : (searchAfter.map fun cursor => cursor.length - 1).getD 0 = start := by
    cases searchAfter with
    | none => exact Option.some.inj hstart
    | some cursor => exact Option.some.inj hstart
  unfold pageServer
  dsimp only
  rw [hstart']
  refine ⟨rfl, fun hne => ?_⟩
  refine ⟨String.ofList (List.replicate _ '*'), ?_, if_neg (by simpa using hne), ?_⟩
  · intro hempty
    have hlength := congrArg String.length hempty
    simp at hlength
  · simp

/-- A hundred and fifty variables, none of which is left out by a keyword. -/
def manyVariables : VariableCatalogue ℕ where
  items := List.range 150
  conceptId n := String.ofList (List.replicate n 'V')
  matchesKeyword _ _ := true
  nodup := List.nodup_range.map fun m n h => by
    simpa using congrArg String.length h

theorem servedBy_pageServer (c : VariableCatalogue Item) :
    c.ServedBy (fun q => pageServer (c.found q)) c.found :=
  fun q => ⟨searchAfter_pageServer (c.found q), List.Perm.refl _⟩

/-- Three items, of which two are asked for; and all the variables, whose ids make two batches. -/
theorem pagingExact_two :
    let ids := manyVariables.items.map manyVariables.conceptId
    (∃ enough, ∀ fuel ≥ enough, search (pageServer [1, 2, 3]) 2 fuel = some [1, 2]) ∧
      (idBatches ids).length = 2 ∧ ∃ enough, ∀ fuel ≥ enough, ∃ records,
        getVariables (fun q => pageServer (manyVariables.found q)) id ids none fuel = some records ∧
          records.Perm (List.range 150) := by
  intro ids
  have hall : (manyVariables.found ⟨ids, none⟩).map id = List.range 150 := by
    rw [List.map_id]
    refine List.filter_eq_self.2 fun n hn => Bool.and_eq_true_iff.2 ⟨?_, rfl⟩
    exact List.any_eq_true.2 ⟨_, List.mem_map_of_mem hn, decide_eq_true rfl⟩
  obtain ⟨hsearch, hvariables⟩ := pagingExact ℕ ℕ
  have hbatches : (idBatches ids).length = 2 := by
    simp [ids, idBatches, manyVariables, variableIdBatchSize]
  refine ⟨hsearch _ _ (searchAfter_pageServer [1, 2, 3]) 2, hbatches, ?_⟩
  rw [← hall]
  exact hvariables _ _ _ (servedBy_pageServer manyVariables) id ids manyVariables.nodup none

end catalogue

end EarthdataMcp
