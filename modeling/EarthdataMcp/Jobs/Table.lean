import EarthdataMcp.Providers.Identity

/-!
# The jobs table

The rows of the `jobs` table in order of creation, the queries of `crud`, and the two ways a
transaction can be run: in one step, or as a read followed by a later commit of only the
columns whose value changed.

* `JobQuery.select`, the rows each query of `crud` returns;
* `JobOp` and `JobTable.exec`;
* `Edit.Disciplined`: what every transaction of the system does to a row is a `Job.Moves`.
-/

namespace EarthdataMcp

/-- What a transaction does to each row it has read, at the time it commits. -/
abbrev Edit := Time → Job → Except Exn Job

/-- The queries of `crud`. -/
inductive JobQuery
  | getJob (job : JobId)
  | getJobByHandle (jobHandle : HandleId)
  | getJobByObsHandle (obsHandle : HandleId)
  | previousMaterialization (obsHandle : HandleId) (beforeJob : JobId)
  | rebuildCosts (obsHandles : List HandleId)
  | userWorkInFlight
  | speculativeJobsSince (workspace : WorkspaceId) (since : Time)
  | reclaimNonTerminal
  | reclaimStalled (stalledBefore materializingStalledBefore : Time)

/-- The last sign of life of a job. -/
def Job.liveness (job : Job) : Time := job.lastPolledAt.getD job.updatedAt

/-- The rows a query returns. -/
def JobQuery.select : JobQuery → List Job → List Job
  | getJob j, rows => (rows.find? fun job => job.jobId = j).toList
  | getJobByHandle h, rows => (rows.find? fun job => job.jobHandle = h).toList
  | getJobByObsHandle h, rows => ((rows.filter fun job => job.obsHandle = some h).getLast?).toList
  | previousMaterialization h before, rows =>
      ((rows.filter fun job =>
        job.obsHandle = some h ∧ job.jobId ≠ before ∧ job.materialization.isSome).getLast?).toList
  | rebuildCosts hs, rows =>
      rows.filter fun job => job.obsHandle.any (· ∈ hs) && job.rebuildCostSeconds.isSome
  | userWorkInFlight, rows => rows.filter fun job => ¬ job.state.Terminal ∧ ¬ job.speculative
  | speculativeJobsSince ws since, rows =>
      rows.filter fun job => job.speculative ∧ job.requestSpec.spec.workspaceId = some ws ∧
        since ≤ job.createdAt
  | reclaimNonTerminal, rows => rows.filter fun job => ¬ job.state.Terminal
  | reclaimStalled before matBefore, rows =>
      rows.filter fun job => ¬ job.state.Terminal ∧
        job.liveness < if job.state = .materializing then matBefore else before

theorem JobQuery.mem_of_select {q : JobQuery} {rows : List Job} {job : Job}
    (h : job ∈ q.select rows) : job ∈ rows := by
  cases q with
  | getJob j => exact List.mem_of_find?_eq_some (Option.mem_toList.1 h)
  | getJobByHandle hd => exact List.mem_of_find?_eq_some (Option.mem_toList.1 h)
  | getJobByObsHandle hd =>
    exact List.mem_of_mem_filter (List.mem_of_getLast? (Option.mem_toList.1 h))
  | previousMaterialization hd before =>
    exact List.mem_of_mem_filter (List.mem_of_getLast? (Option.mem_toList.1 h))
  | _ => exact List.mem_of_mem_filter h

/-- What a row that a query by id or by handle returns is known to be. -/
def JobQuery.Matches : JobQuery → Job → Prop
  | getJob j, job => job.jobId = j
  | getJobByHandle h, job => job.jobHandle = h
  | getJobByObsHandle h, job => job.obsHandle = some h
  | _, _ => True

theorem JobQuery.matches_of_select {q : JobQuery} {rows : List Job} {job : Job}
    (h : job ∈ q.select rows) : q.Matches job := by
  cases q with
  | getJob j =>
    show job.jobId = j
    simpa using List.find?_some (Option.mem_toList.1 h)
  | getJobByHandle hd =>
    show job.jobHandle = hd
    simpa using List.find?_some (Option.mem_toList.1 h)
  | getJobByObsHandle hd =>
    show job.obsHandle = some hd
    simpa using List.of_mem_filter (List.mem_of_getLast? (Option.mem_toList.1 h))
  | _ => trivial

/-- The columns of a fresh row that its creator chooses. -/
structure NewJob where
  jobHandle : HandleId
  obsHandle : Option HandleId
  provider : Provider
  requestSpec : StoredSpec
  credentialEncrypted : Option Credential := none
  speculative : Bool := false

/-- A fresh row, in `pending`. -/
def NewJob.row (new : NewJob) (now : Time) (j : JobId) : Job where
  jobId := j
  jobHandle := new.jobHandle
  obsHandle := new.obsHandle
  provider := new.provider
  requestSpec := new.requestSpec
  state := .pending
  credentialEncrypted := new.credentialEncrypted
  speculative := new.speculative
  createdAt := now
  updatedAt := now

/-- The operations on the table.  `transact` reads the rows of a query and writes what `edit`
makes of them in one step; `read` and `commit` are the two halves of it. -/
inductive JobOp
  | read (q : JobQuery)
  | transact (q : JobQuery) (edit : Edit)
  | commit (rows : List Job) (edit : Edit)
  | create (new : NewJob)

/-- What each operation answers; a transaction hands out the rows as it read them. -/
@[reducible] def JobOp.Ans : JobOp → Type
  | read _ => List Job
  | transact _ _ => List Job
  | commit _ _ => Unit
  | create _ => JobId

/-- The table: its rows in order of creation, and for every job id the credential the job
was created with. -/
structure JobTable where
  rows : List Job := []
  minted : List (Option Credential) := []

/-- The next job id. -/
def JobTable.next (t : JobTable) : JobId := t.minted.length

/-! ### Writing rows -/

/-- `UPDATE` stamps `updated_at` when it changes something. -/
def Job.stamp (now : Time) (job job' : Job) : Job :=
  if job' = job then job else { job' with updatedAt := now }

section stamp

variable (now : Time) (job job' : Job)

@[simp] theorem Job.stamp_state : (job.stamp now job').state = job'.state := by
  unfold Job.stamp; split_ifs with h
  · rw [h]
  · rfl

@[simp] theorem Job.stamp_jobId : (job.stamp now job').jobId = job'.jobId := by
  unfold Job.stamp; split_ifs with h
  · rw [h]
  · rfl

@[simp] theorem Job.stamp_jobHandle : (job.stamp now job').jobHandle = job'.jobHandle := by
  unfold Job.stamp; split_ifs with h
  · rw [h]
  · rfl

@[simp] theorem Job.stamp_provider : (job.stamp now job').provider = job'.provider := by
  unfold Job.stamp; split_ifs with h
  · rw [h]
  · rfl

@[simp] theorem Job.stamp_requestSpec :
    (job.stamp now job').requestSpec = job'.requestSpec := by
  unfold Job.stamp; split_ifs with h
  · rw [h]
  · rfl

@[simp] theorem Job.stamp_providerJobUrl :
    (job.stamp now job').providerJobUrl = job'.providerJobUrl := by
  unfold Job.stamp; split_ifs with h
  · rw [h]
  · rfl

end stamp

/-- The row is one of those a transaction has read. -/
def Job.isAmong (job : Job) (rows : List Job) : Bool := rows.any fun row => row.jobId = job.jobId

/-- The first exception `edit` raises on the rows read. -/
def firstError (now : Time) (edit : Edit) : List Job → Option Exn
  | [] => none
  | job :: rows =>
      match edit now job with
      | .error e => some e
      | .ok _ => firstError now edit rows

/-- What a transaction in one step makes of a row of the table. -/
def writeRow (now : Time) (edit : Edit) (rows : List Job) (job : Job) : Job :=
  if job.isAmong rows then
    match edit now job with
    | .ok job' => job.stamp now job'
    | .error _ => job
  else job

/-- A transaction in one step leaves a row alone, or writes what it made of it. -/
theorem writeRow_cases (now : Time) (edit : Edit) (rows : List Job) (job : Job) :
    writeRow now edit rows job = job ∨
      ∃ job', job.isAmong rows = true ∧ edit now job = .ok job' ∧
        writeRow now edit rows job = job.stamp now job' := by
  unfold writeRow
  split_ifs with hamong
  · cases hjob : edit now job with
    | ok job' => exact Or.inr ⟨job', hamong, rfl, rfl⟩
    | error e => exact Or.inl rfl
  · exact Or.inl rfl

theorem firstError_eq_none {now : Time} {edit : Edit} {rows : List Job}
    (h : firstError now edit rows = none) {row : Job} (hrow : row ∈ rows) :
    ∃ row', edit now row = .ok row' := by
  induction rows with
  | nil => cases hrow
  | cons r rows ih =>
    simp only [firstError] at h
    cases hr : edit now r with
    | error e => simp [hr] at h
    | ok r' =>
      simp only [hr] at h
      rcases List.mem_cons.1 hrow with rfl | hrow
      · exact ⟨r', hr⟩
      · exact ih h hrow

/-- The value a column has after the commit: the new value if the transaction changed it,
else whatever the row holds by then. -/
def mergeColumn {α : Type} [DecidableEq α] (read new current : α) : α :=
  if new = read then current else new

/-- The changed-columns `UPDATE` of a row read as `read` and computed to be `new`. -/
def mergeRow (now : Time) (read new current : Job) : Job :=
  if new = read then current
  else
    { current with
      provider := mergeColumn read.provider new.provider current.provider
      requestSpec := mergeColumn read.requestSpec new.requestSpec current.requestSpec
      state := mergeColumn read.state new.state current.state
      providerJobUrl := mergeColumn read.providerJobUrl new.providerJobUrl current.providerJobUrl
      progress := mergeColumn read.progress new.progress current.progress
      message := mergeColumn read.message new.message current.message
      error := mergeColumn read.error new.error current.error
      lastPolledAt := mergeColumn read.lastPolledAt new.lastPolledAt current.lastPolledAt
      credentialEncrypted :=
        mergeColumn read.credentialEncrypted new.credentialEncrypted current.credentialEncrypted
      materialization :=
        mergeColumn read.materialization new.materialization current.materialization
      rebuildCostSeconds :=
        mergeColumn read.rebuildCostSeconds new.rebuildCostSeconds current.rebuildCostSeconds
      updatedAt := now }

section mergeRow

variable (now : Time) (read new current : Job)

@[simp] theorem mergeRow_jobId : (mergeRow now read new current).jobId = current.jobId := by
  unfold mergeRow; split_ifs <;> rfl

@[simp] theorem mergeRow_jobHandle :
    (mergeRow now read new current).jobHandle = current.jobHandle := by
  unfold mergeRow; split_ifs <;> rfl

@[simp] theorem mergeRow_obsHandle :
    (mergeRow now read new current).obsHandle = current.obsHandle := by
  unfold mergeRow; split_ifs <;> rfl

theorem mergeRow_state :
    (mergeRow now read new current).state = mergeColumn read.state new.state current.state := by
  unfold mergeRow
  split_ifs with h
  · rw [h, mergeColumn, if_pos rfl]
  · rfl

theorem mergeRow_credentialEncrypted :
    (mergeRow now read new current).credentialEncrypted =
      mergeColumn read.credentialEncrypted new.credentialEncrypted
        current.credentialEncrypted := by
  unfold mergeRow
  split_ifs with h
  · rw [h, mergeColumn, if_pos rfl]
  · rfl

end mergeRow

/-- What a later commit makes of a row of the table. -/
def commitRow (now : Time) (edit : Edit) (rows : List Job) (job : Job) : Job :=
  match rows.find? fun row => row.jobId = job.jobId with
  | none => job
  | some read =>
      match edit now read with
      | .ok new => mergeRow now read new job
      | .error _ => job

/-- A commit leaves a row alone, or merges what it made of the row as it was read. -/
theorem commitRow_cases (now : Time) (edit : Edit) (rows : List Job) (job : Job) :
    commitRow now edit rows job = job ∨
      ∃ read ∈ rows, ∃ new, read.jobId = job.jobId ∧ edit now read = .ok new ∧
        commitRow now edit rows job = mergeRow now read new job := by
  unfold commitRow
  split
  · exact Or.inl rfl
  · rename_i read hread
    have hmem := List.mem_of_find?_eq_some hread
    have hid : read.jobId = job.jobId := by simpa using List.find?_some hread
    split
    · rename_i new hnew
      exact Or.inr ⟨read, hmem, new, hid, hnew, rfl⟩
    · exact Or.inl rfl

/-- The effect of an operation on the table. -/
def JobTable.exec (now : Time) (t : JobTable) : (o : JobOp) → Except Exn o.Ans × JobTable
  | .read q => (.ok (q.select t.rows), t)
  | .transact q edit =>
      match firstError now edit (q.select t.rows) with
      | some e => (.error e, t)
      | none =>
          (.ok (q.select t.rows),
            { t with rows := t.rows.map (writeRow now edit (q.select t.rows)) })
  | .commit rows edit =>
      match firstError now edit rows with
      | some e => (.error e, t)
      | none => (.ok (), { t with rows := t.rows.map (commitRow now edit rows) })
  | .create new =>
      (.ok t.next,
        { rows := t.rows ++ [new.row now t.next], minted := t.minted ++ [new.credentialEncrypted] })

/-! ### What the transactions of the system do -/

/-- Every row the edit accepts moves by guarded changes of state. -/
def Edit.Disciplined (edit : Edit) : Prop :=
  ∀ now job job', edit now job = .ok job' → job.Moves job'

/-- An operation all of whose writes are disciplined. -/
def JobOp.Disciplined : JobOp → Prop
  | .transact _ edit => edit.Disciplined
  | .commit _ edit => edit.Disciplined
  | _ => True

theorem Job.Moves.stamp {now : Time} {job job' : Job} (h : job.Moves job') :
    job.Moves (job.stamp now job') := by
  unfold Job.stamp
  split_ifs
  · exact .refl job
  · exact ⟨h.jobId, h.jobHandle, h.obsHandle, h.createdAt, h.speculative, h.follows, h.credential⟩

theorem Edit.Disciplined.writeRow {edit : Edit} (h : edit.Disciplined) (now : Time)
    (rows : List Job) (job : Job) : job.Moves (writeRow now edit rows job) := by
  unfold EarthdataMcp.writeRow
  split_ifs
  · cases hj : edit now job with
    | ok job' => exact (h now job job' hj).stamp
    | error e => exact .refl job
  · exact .refl job

/-- How the table changes in one step: rows move in place, or a fresh row is appended. -/
inductive JobTable.Evolves (now : Time) (t : JobTable) : JobTable → Prop
  | rows (f : Job → Job) (h : ∀ job ∈ t.rows, job.Moves (f job)) :
      Evolves now t { t with rows := t.rows.map f }
  | create (new : NewJob) :
      Evolves now t
        { rows := t.rows ++ [new.row now t.next], minted := t.minted ++ [new.credentialEncrypted] }

theorem JobTable.Evolves.refl (now : Time) (t : JobTable) : t.Evolves now t := by
  simpa using @Evolves.rows now t id fun job _ => Job.Moves.refl job

/-- The operation is not the later half of a transaction. -/
def JobOp.Atomic : JobOp → Prop
  | .commit _ _ => False
  | _ => True

theorem JobTable.exec_evolves {now : Time} {t : JobTable} {o : JobOp} (ho : o.Disciplined)
    (hat : o.Atomic) : t.Evolves now (t.exec now o).2 := by
  cases o with
  | read q => exact .refl now t
  | transact q edit =>
    simp only [JobTable.exec]
    split
    · exact .refl now t
    · exact .rows _ fun job _ => Edit.Disciplined.writeRow ho now _ job
  | commit rows edit => exact hat.elim
  | create new => exact .create new

/-! ### Job ids -/

/-- The rows are numbered in the order in which they were created. -/
def JobTable.Indexed (t : JobTable) : Prop := t.rows.map Job.jobId = List.range t.minted.length

namespace JobTable

variable {t : JobTable}

theorem Indexed.known (h : t.Indexed) {job : Job} (hjob : job ∈ t.rows) :
    job.jobId < t.minted.length := by
  have hmem : job.jobId ∈ t.rows.map Job.jobId := List.mem_map_of_mem hjob
  rw [h] at hmem
  exact List.mem_range.1 hmem

/-- No two rows have the same id. -/
theorem Indexed.eq_of_jobId (h : t.Indexed) {job job' : Job} (hjob : job ∈ t.rows)
    (hjob' : job' ∈ t.rows) (hid : job.jobId = job'.jobId) : job = job' := by
  have hnodup : (t.rows.map Job.jobId).Nodup := by rw [h]; exact List.nodup_range
  exact List.inj_on_of_nodup_map hnodup hjob hjob' hid

theorem Indexed.map {f : Job → Job} (h : t.Indexed) (hf : ∀ job ∈ t.rows, (f job).jobId = job.jobId) :
    JobTable.Indexed { t with rows := t.rows.map f } := by
  show (t.rows.map f).map Job.jobId = List.range t.minted.length
  rw [List.map_map, ← h]
  exact List.map_congr_left hf

theorem Indexed.create (h : t.Indexed) (new : NewJob) (now : Time) :
    JobTable.Indexed
      { rows := t.rows ++ [new.row now t.next], minted := t.minted ++ [new.credentialEncrypted] } := by
  show (t.rows ++ [new.row now t.next]).map Job.jobId =
    List.range (t.minted ++ [new.credentialEncrypted]).length
  rw [List.map_append, h, List.length_append, List.length_singleton, List.range_succ]
  rfl

theorem Indexed.select_getJob (h : t.Indexed) {job : Job} (hjob : job ∈ t.rows) :
    (JobQuery.getJob job.jobId).select t.rows = [job] := by
  show (t.rows.find? fun row => row.jobId = job.jobId).toList = [job]
  cases hfind : t.rows.find? fun row => row.jobId = job.jobId with
  | none => exact absurd (List.find?_eq_none.1 hfind job hjob) (by simp)
  | some row =>
    have hid : row.jobId = job.jobId := by simpa using List.find?_some hfind
    rw [h.eq_of_jobId (List.mem_of_find?_eq_some hfind) hjob hid]
    rfl

/-- A transaction on a single row that goes through writes that row. -/
theorem writeRow_of_select {now : Time} {edit : Edit} {rows : List Job} {job : Job}
    (hrows : rows = [job]) (hok : firstError now edit rows = none) :
    ∃ job', edit now job = .ok job' ∧ writeRow now edit rows job = job.stamp now job' := by
  subst hrows
  obtain ⟨job', hjob'⟩ := firstError_eq_none hok List.mem_cons_self
  refine ⟨job', hjob', ?_⟩
  rw [writeRow, if_pos (by simp [Job.isAmong]), hjob']

/-- A transaction on one row by its id that goes through writes that row. -/
theorem Indexed.writeRow_getJob (h : t.Indexed) {now : Time} {edit : Edit} {job : Job}
    (hjob : job ∈ t.rows)
    (hok : firstError now edit ((JobQuery.getJob job.jobId).select t.rows) = none) :
    ∃ job', edit now job = .ok job' ∧
      writeRow now edit ((JobQuery.getJob job.jobId).select t.rows) job = job.stamp now job' :=
  writeRow_of_select (h.select_getJob hjob) hok

theorem commitRow_jobId (now : Time) (edit : Edit) (rows : List Job) (job : Job) :
    (commitRow now edit rows job).jobId = job.jobId := by
  rcases commitRow_cases now edit rows job with h | ⟨read, -, new, -, -, h⟩ <;> rw [h]
  exact mergeRow_jobId _ _ _ _

theorem Indexed.exec {now : Time} {o : JobOp} (h : t.Indexed) (ho : o.Disciplined) :
    (t.exec now o).2.Indexed := by
  cases o with
  | read q => exact h
  | transact q edit =>
    simp only [JobTable.exec]
    split
    · exact h
    · exact h.map fun job _ => (Edit.Disciplined.writeRow ho now _ job).jobId
  | commit rows edit =>
    simp only [JobTable.exec]
    split
    · exact h
    · exact h.map fun job _ => commitRow_jobId now edit rows job
  | create new => exact h.create new now

end JobTable

end EarthdataMcp
