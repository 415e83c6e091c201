import EarthdataMcp.Jobs.ReadCommitted

/-!
# What a thread knows of the jobs table

Under READ COMMITTED a thread acts on the rows it has read.  It remembers them, and every
program decides about identities by what it remembers.

* `RowNotes`, the token presented to a thread and the rows it has read; `rowMonitor`;
* `RowNotes.MayDo`: a commit writes rows the thread has read, a provider is called with the
  token of the row it has read, a job is created with a credential of its own or of such a row;
* `readCommitted_obeys`: every program of the service keeps to that.
-/

namespace EarthdataMcp

open Concurrency Concurrency.Prog Concurrency.System

/-- The token presented to a thread whose upstream calls depend on it. -/
def Origin.presented : Origin → Option Token
  | .cancelRetrieval _ _ token => token
  | _ => none

/-- The token is the one the row's credential yields, if it has one. -/
def Job.Yields (cfg : Settings) (row : Job) (token : Option Token) : Prop :=
  ∀ c, row.credentialEncrypted = some c → c.key ∈ cfg.earthdataCredentialKey →
    token = some c.token

/-- What a thread knows: the token presented to it, and the rows it has read. -/
structure RowNotes where
  presented : Option Token
  seen : List Job := []

namespace RowNotes

/-- `n'` knows what `n` knows. -/
structure Le (n n' : RowNotes) : Prop where
  presented : n'.presented = n.presented
  seen : ∀ row ∈ n.seen, row ∈ n'.seen

theorem Le.refl (n : RowNotes) : n.Le n := ⟨rfl, fun _ h => h⟩

theorem Le.trans {n n' n'' : RowNotes} (h : n.Le n') (h' : n'.Le n'') : n.Le n'' :=
  ⟨h'.presented.trans h.presented, fun row hr => h'.seen row (h.seen row hr)⟩

/-- The thread has read a row of the job, not ended, that yields the token. -/
def Vouches (cfg : Settings) (n : RowNotes) (j : JobId) (token : Option Token) : Prop :=
  ∃ row ∈ n.seen, row.jobId = j ∧ ¬ row.state.Terminal ∧ row.Yields cfg token

/-- What a thread that knows `n` may do. -/
def MayDo (cfg : Settings) (n : RowNotes) : Op → Prop
  | .jobs (.transact _ edit) => edit.Disciplined
  | .jobs (.commit rows edit) => edit.Disciplined ∧ ∀ row ∈ rows, row ∈ n.seen
  | .jobs (.create new) =>
      (∀ c, new.credentialEncrypted = some c → c.key ∈ cfg.earthdataCredentialKey) ∨
        ∃ row ∈ n.seen, row.credentialEncrypted = new.credentialEncrypted
  | .provider (.submit j _ token) => n.Vouches cfg j token
  | .provider (.poll j _ _ token) => n.Vouches cfg j token
  | .provider (.fetch j _ _ token) => n.Vouches cfg j token
  | .provider (.cancel j _ _ token) =>
      token = n.presented ∧ token ≠ none ∨ n.Vouches cfg j token
  | _ => True

theorem Vouches.mono {cfg : Settings} {n n' : RowNotes} {j : JobId} {token : Option Token}
    (h : n.Vouches cfg j token) (hle : n.Le n') : n'.Vouches cfg j token := by
  obtain ⟨row, hrow, hrest⟩ := h
  exact ⟨row, hle.seen row hrow, hrest⟩

theorem MayDo.mono {cfg : Settings} {n n' : RowNotes} {o : Op} (h : n.MayDo cfg o)
    (hle : n.Le n') : n'.MayDo cfg o := by
  unfold MayDo at h ⊢
  split
  · exact h
  · exact ⟨h.1, fun row hr => hle.seen row (h.2 row hr)⟩
  · rcases h with h | ⟨row, hrow, hc⟩
    · exact Or.inl h
    · exact Or.inr ⟨row, hle.seen row hrow, hc⟩
  · exact h.mono hle
  · exact h.mono hle
  · exact h.mono hle
  · rcases h with ⟨h, hne⟩ | h
    · exact Or.inl ⟨h.trans hle.presented.symm, hne⟩
    · exact Or.inr (h.mono hle)
  · trivial

end RowNotes

/-- The monitor that remembers the rows a thread has read. -/
def rowMonitor (cfg : Settings) : Monitor (readCommitted cfg) RowNotes where
  start g := { presented := g.presented }
  observe n o a := { n with seen := o.rowsRead a ++ n.seen }

/-- What was presented to a thread is what its origin says. -/
theorem rowMonitor_presented (cfg : Settings) (th : (readCommitted cfg).Thread) :
    ((rowMonitor cfg).note th).presented = th.origin.presented := by
  unfold Monitor.note Monitor.after
  induction th.past with
  | nil => rfl
  | cons e past ih => exact ih

theorem RowNotes.le_observe (cfg : Settings) (n : RowNotes) (o : Op) (a : Except Exn o.Ans) :
    n.Le ((rowMonitor cfg).observe n o a) :=
  ⟨rfl, fun _ h => List.mem_append_right _ h⟩

/-- What a thread does under READ COMMITTED. -/
abbrev rowProtocol (cfg : Settings) : Protocol Api RowNotes :=
  (rowMonitor cfg).protocol (fun n o => n.MayDo cfg o ∧ ∀ q edit, o ≠ .jobs (.transact q edit))
    fun _ o a => o.Told a

/-- What its program does, every transaction in one piece. -/
def rowTransactions (cfg : Settings) : Protocol Api RowNotes where
  allows n o := n.MayDo cfg o
  next n o a n' := n.Le n' ∧ (∀ row ∈ o.rowsRead a, row ∈ n'.seen) ∧ o.Told a

/-- A transaction may be opened: what it commits are rows it has read. -/
theorem openTransaction_obeys {cfg : Settings} {n : RowNotes} {o : Op} (ho : n.MayDo cfg o) :
    (openTransaction o).Obeys (rowProtocol cfg) n fun a n' =>
      (rowTransactions cfg).next n o a n' := by
  unfold openTransaction
  split
  · rename_i q edit
    rw [obeys_bind, obeys_perform]
    refine ⟨⟨trivial, fun _ _ h => by cases h⟩, ?_⟩
    rintro (e | rows) n' ⟨htold, rfl⟩
    · exact ⟨RowNotes.le_observe .., fun row h => absurd h List.not_mem_nil, fun _ _ _ h =>
        absurd h List.not_mem_nil⟩
    · rw [afterBind_ok, obeys_bind, obeys_perform]
      refine ⟨⟨⟨ho, fun row hr => List.mem_append_left _ hr⟩, fun _ _ h => by cases h⟩, ?_⟩
      have hle := RowNotes.le_observe cfg n (.jobs (.read q)) (.ok rows)
      rintro (e | ⟨⟩) n' ⟨-, rfl⟩
      · exact ⟨hle.trans (RowNotes.le_observe ..), fun row h => absurd h List.not_mem_nil,
          fun _ _ _ h => absurd h List.not_mem_nil⟩
      · exact ⟨hle.trans (RowNotes.le_observe ..), fun row hr =>
          List.mem_append_right _ (List.mem_append_left _ hr), htold⟩
  · rename_i hne
    refine ⟨⟨ho, hne⟩, ?_⟩
    rintro a n' ⟨htold, rfl⟩
    exact ⟨RowNotes.le_observe .., fun row hr => List.mem_append_left _ hr, htold⟩

/-! ### The programs -/

section programs

variable {cfg : Settings} {α : Type} {n : RowNotes}

/-- A program that only does what its thread may do from the start. -/
theorem obeys_of_only {p : Program α} (hp : p.Only (n.MayDo cfg)) :
    p.Obeys (rowTransactions cfg) n fun _ n' => n.Le n' :=
  hp.obeys (fun _ _ hle ho => RowNotes.MayDo.mono ho hle) (fun _ _ _ _ hle _ hn => hle.trans hn.1)
    (.refl n)

theorem SweepOp.mayDo {o : Op} (h : SweepOp o) : n.MayDo cfg o := by
  cases h with
  | expireJob => exact expireReady_disciplined
  | _ => trivial

theorem PrefetchOp.mayDo {o : Op} {row : Job} (hrow : row ∈ n.seen)
    (h : PrefetchOp row.credentialEncrypted o) : n.MayDo cfg o := by
  cases h with
  | create new hc => exact Or.inr ⟨row, hrow, hc.symm⟩
  | _ => trivial

theorem TaskOp.mayDo {j : JobId} {o : Op} (h : TaskOp j o) : n.MayDo cfg o := by
  cases h with
  | fail error => exact enterState_disciplined _ _
  | _ => trivial

theorem ReclaimOp.mayDo {o : Op} (h : ReclaimOp o) : n.MayDo cfg o := by
  cases h with
  | triage q t => exact triage_disciplined t
  | sweep h => exact h.mayDo
  | _ => trivial

theorem RetrievalOp.mayDo {o : Op} (h : RetrievalOp cfg o) : n.MayDo cfg o := by
  cases h with
  | create new identity hc =>
    refine Or.inl fun c hnew => ?_
    rw [hnew] at hc
    obtain ⟨token, -, henc⟩ := Option.bind_eq_some_iff.1 hc.symm
    obtain ⟨key, hkey, rfl⟩ := Option.map_eq_some_iff.1 henc
    exact List.mem_of_head? hkey
  | _ => trivial

theorem ReadingOp.mayDo {o : Op} (h : ReadingOp o) : n.MayDo cfg o := by
  cases h <;> trivial

theorem CubeOp.mayDo {cube : CubeResult} {o : Op} (h : CubeOp cfg cube o) : n.MayDo cfg o := by
  cases h <;> trivial

theorem SubmitFailedOp.mayDo {j : JobId} {spec : RequestSpec} {o : Op}
    (h : SubmitFailedOp j spec o) : n.MayDo cfg o := by
  cases h with
  | task h => exact h.mayDo
  | reroute _ => exact rerouteToOpendap_disciplined
  | enqueue => trivial

theorem SubmitSucceededOp.mayDo {j : JobId} {url : Option String} {o : Op}
    (h : SubmitSucceededOp j url o) : n.MayDo cfg o := by
  cases h with
  | submitted => exact enterState_disciplined _ _
  | _ => trivial

theorem DeliverOp.mayDo {j : JobId} {row : Job} {o : Op} (hrow : row ∈ n.seen)
    (h : DeliverOp j row.credentialEncrypted o) : n.MayDo cfg o := by
  cases h with
  | task h => exact h.mayDo
  | ready extra _ => exact enterState_disciplined _ _
  | sweep h => exact h.mayDo
  | prefetch h => exact h.mayDo hrow
  | _ => trivial

/-- `p`, which only does what is allowed anyway, and then `f`. -/
theorem obeys_only_bind {β : Type} {p : Program α} {f : α → Program β}
    (hp : p.Only (n.MayDo cfg))
    (hf : ∀ a n', n.Le n' → (f a).Obeys (rowTransactions cfg) n' fun _ _ => True) :
    (p >>= f).Obeys (rowTransactions cfg) n fun _ _ => True := by
  rw [obeys_bind]
  refine (obeys_of_only hp).mono ?_
  rintro (e | a) n' hle
  · trivial
  · exact hf a n' hle

theorem obeys_only_true {p : Program α} (hp : p.Only (n.MayDo cfg)) :
    p.Obeys (rowTransactions cfg) n fun _ _ => True :=
  (obeys_of_only hp).mono fun _ _ _ => trivial

theorem usableToken_eq_ok {now : Time} {c : Credential} {identity : Option Token}
    (h : usableToken cfg now c = .ok identity) : identity = some c.token := by
  unfold usableToken at h
  split at h
  · cases h
  · rename_i token htoken
    rw [parseEdlToken_eq_ok h, ((decryptCredential_eq_ok cfg).1 htoken).2]

/-- The identity of an attempt is the token that the row's credential yields. -/
theorem loadJobIdentity_obeys (j : JobId) (spec : RequestSpec) (row : Job) :
    (loadJobIdentity cfg j spec row.credentialEncrypted).Obeys (rowTransactions cfg) n
      fun r n' => n.Le n' ∧ ∀ token, r = .ok token → row.Yields cfg token := by
  unfold loadJobIdentity
  split
  · rename_i hnone
    refine ⟨.refl n, fun token _ c hc => ?_⟩
    rw [hnone] at hc
    cases hc
  · rename_i c hsome
    rw [obeys_bind, obeys_perform]
    refine ⟨trivial, ?_⟩
    rintro (e | now) n1 ⟨hle, -⟩
    · exact ⟨hle, fun token h => by cases h⟩
    rw [afterBind_ok]
    split
    · rename_i identity hid
      refine ⟨hle, fun token htoken c' hc' _ => ?_⟩
      obtain rfl : identity = token := Except.ok.inj htoken
      obtain rfl : c = c' := Option.some.inj (hsome.symm.trans hc')
      exact usableToken_eq_ok hid
    · rw [obeys_bind]
      refine (obeys_of_only ((failJob_only _ _ _ _).mono fun _ => TaskOp.mayDo)).mono ?_
      rintro (e' | ⟨⟩) n2 hle2 <;> exact ⟨hle.trans hle2, fun token h => by cases h⟩

/-- A task loads its row, goes on with one it has read in a wanted state, and stops otherwise. -/
theorem withRow_obeys {j : JobId} {wanted : JobState → Bool} {go : Job → RequestSpec → Program Unit}
    (hwanted : ∀ s, wanted s = true → ¬ s.Terminal)
    (hgo : ∀ job spec n', n.Le n' → job ∈ n'.seen → job.jobId = j → ¬ job.state.Terminal →
      (go job spec).Obeys (rowTransactions cfg) n' fun _ _ => True) :
    (do let rows ← perform (.jobs (.transact (.getJob j) (failInvalidSpec wanted)))
        withRow wanted rows go).Obeys (rowTransactions cfg) n fun _ _ => True := by
  rw [obeys_bind, obeys_perform]
  refine ⟨failInvalidSpec_disciplined wanted, ?_⟩
  rintro (e | rows) n' ⟨hle, hseen, htold⟩
  · trivial
  rw [afterBind_ok]
  unfold withRow
  split
  · trivial
  · rename_i job rest
    split_ifs with hw
    · split
      · trivial
      · exact hgo job _ n' hle (hseen job List.mem_cons_self)
          (htold _ rfl job List.mem_cons_self) (hwanted _ hw)
    · trivial

/-- What a task of job `j` knows of the row it goes on with. -/
theorem vouches_of_row {j : JobId} {row : Job} {token : Option Token} (hrow : row ∈ n.seen)
    (hid : row.jobId = j) (hst : ¬ row.state.Terminal) (hy : row.Yields cfg token) :
    n.Vouches cfg j token := ⟨row, hrow, hid, hst, hy⟩

theorem submitRow_obeys {j : JobId} {spec : RequestSpec} {row : Job} (hrow : row ∈ n.seen)
    (hid : row.jobId = j) (hst : ¬ row.state.Terminal) :
    (submitRow cfg j spec row.credentialEncrypted).Obeys (rowTransactions cfg) n
      fun _ _ => True := by
  unfold submitRow
  rw [obeys_bind]
  refine (loadJobIdentity_obeys j spec row).mono ?_
  rintro (e | identity) n1 ⟨hle, hy⟩
  · trivial
  rw [afterBind_ok]
  refine obeys_only_bind ((loadProvider_only (j := j) _ _).mono fun _ => TaskOp.mayDo)
    fun _ n2 hle2 => ?_
  rw [obeys_bind, obeys_attempt, obeys_perform]
  refine ⟨vouches_of_row (hle2.seen _ (hle.seen _ hrow)) hid hst (hy _ rfl), ?_⟩
  rintro a n3 -
  rw [afterBind_ok]
  split
  · exact obeys_only_true ((submitFailed_only _ _ _ _).mono fun _ => SubmitFailedOp.mayDo)
  · exact obeys_only_true ((submitSucceeded_only _ _ _).mono fun _ => SubmitSucceededOp.mayDo)

theorem submitJob_obeys (j : JobId) :
    (submitJob cfg j).Obeys (rowTransactions cfg) n fun _ _ => True :=
  withRow_obeys (fun s hs => by simp_all) fun _ _ _ _ hrow hid hst => submitRow_obeys hrow hid hst

theorem pollRow_obeys {j : JobId} {spec : RequestSpec} {row : Job} (hrow : row ∈ n.seen)
    (hid : row.jobId = j) (hst : ¬ row.state.Terminal) :
    (pollRow cfg j spec row).Obeys (rowTransactions cfg) n fun _ _ => True := by
  unfold pollRow pollProvider
  rw [obeys_bind]
  refine (loadJobIdentity_obeys j spec row).mono ?_
  rintro (e | identity) n1 ⟨hle, hy⟩
  · trivial
  rw [afterBind_ok, obeys_bind, obeys_attempt, obeys_bind]
  refine (obeys_of_only ((loadProvider_only (j := j) _ _).mono fun _ => TaskOp.mayDo)).mono ?_
  have hfail (e : Exn) (n' : RowNotes) :
      (pollFailed cfg j spec identity e).Obeys (rowTransactions cfg) n' fun _ _ => True :=
    obeys_only_true ((pollFailed_only _ _ _ _).mono fun _ => TaskOp.mayDo)
  rintro (e | ⟨⟩) n2 hle2
  · exact hfail e n2
  rw [afterBind_ok, obeys_perform]
  refine ⟨vouches_of_row (hle2.seen _ (hle.seen _ hrow)) hid hst (hy _ rfl), ?_⟩
  rintro (e | status) n3 -
  · exact hfail e n3
  rw [afterBind_ok]
  refine obeys_only_bind (only_perform.2 (applyStatus_disciplined status)) fun rows n4 _ => ?_
  split
  · trivial
  · exact obeys_only_true (enqueueNext_only trivial trivial _)

theorem pollJob_obeys (j : JobId) :
    (pollJob cfg j).Obeys (rowTransactions cfg) n fun _ _ => True := by
  have honce : (pollOnce cfg j).Obeys (rowTransactions cfg) n fun _ _ => True :=
    withRow_obeys (fun s hs => (of_decide_eq_true hs : s.Polled).not_terminal)
      fun _ _ _ _ hrow hid hst => pollRow_obeys hrow hid hst
  unfold pollJob
  rw [obeys_bind, obeys_attempt]
  refine honce.mono fun r n' _ => ?_
  rw [afterBind_ok]
  split
  · trivial
  · split_ifs
    · refine obeys_only_bind (only_perform.2 trivial) fun _ _ _ => obeys_only_true ?_
      unfold reraiseCancelled
      split_ifs <;> trivial
    · trivial

theorem materializeRow_obeys {j : JobId} {spec : RequestSpec} {row : Job} (hrow : row ∈ n.seen)
    (hid : row.jobId = j) (hst : ¬ row.state.Terminal) :
    (materializeRow cfg j spec row).Obeys (rowTransactions cfg) n fun _ _ => True := by
  unfold materializeRow providerMaterialize
  rw [obeys_bind]
  refine (loadJobIdentity_obeys j spec row).mono ?_
  rintro (e | identity) n1 ⟨hle, hy⟩
  · trivial
  rw [afterBind_ok]
  refine obeys_only_bind ((loadProvider_only (j := j) _ _).mono fun _ => TaskOp.mayDo)
    fun _ n2 hle2 => ?_
  rw [obeys_bind, obeys_attempt, obeys_bind, obeys_perform]
  have hseen : row ∈ n2.seen := hle2.seen _ (hle.seen _ hrow)
  refine ⟨vouches_of_row hseen hid hst (hy _ rfl), ?_⟩
  have hfail (e : Exn) (n' : RowNotes) :
      (materializeFailed cfg j spec identity e).Obeys (rowTransactions cfg) n' fun _ _ => True :=
    obeys_only_true ((materializeFailed_only _ _ _ _).mono fun _ => TaskOp.mayDo)
  rintro (e | out) n3 ⟨hle3, -⟩
  · exact hfail e n3
  rw [afterBind_ok, obeys_bind, obeys_perform]
  refine ⟨trivial, ?_⟩
  rintro (e | ⟨⟩) n4 ⟨hle4, -⟩
  · exact hfail e n4
  · exact obeys_only_true ((materializeDelivered_only _ _ _ _ _ _).mono fun _ =>
      DeliverOp.mayDo (hle4.seen _ (hle3.seen _ hseen)))

theorem materializeJob_obeys (j : JobId) :
    (materializeJob cfg j).Obeys (rowTransactions cfg) n fun _ _ => True :=
  withRow_obeys (fun s hs => by simp_all) fun _ _ _ _ hrow hid hst =>
    materializeRow_obeys hrow hid hst

/-! ### The cancel -/

/-- The upstream cancel goes out under the caller's token, else under the row's. -/
theorem cancelToken_cases (row : Job) (token : Option Token) :
    cancelToken cfg token row.credentialEncrypted = token ∧ token ≠ none ∨
      row.Yields cfg (cancelToken cfg token row.credentialEncrypted) := by
  unfold cancelToken
  cases token with
  | some token => exact Or.inl ⟨rfl, by simp⟩
  | none =>
    refine Or.inr fun c hc hkey => ?_
    have hdec := (decryptCredential_eq_ok cfg).2 ⟨hkey, rfl⟩
    rw [hc, Option.none_or, Option.bind_some, hdec]
    rfl

theorem attemptProviderCancel_mayDo {row : Job} (hrow : row ∈ n.seen)
    (hst : ¬ row.state.Terminal) :
    (attemptProviderCancel row (cancelToken cfg n.presented row.credentialEncrypted)).Only
      (n.MayDo cfg) := by
  have hcancel (spec : RequestSpec) : (cancelUpstream row spec
      (cancelToken cfg n.presented row.credentialEncrypted)).Only (n.MayDo cfg) := by
    unfold cancelUpstream
    split_ifs
    · trivial
    · refine only_perform.2 ?_
      rcases cancelToken_cases row n.presented with ⟨htoken, hne⟩ | hy
      · exact Or.inl ⟨htoken, fun hnone => hne (htoken.symm.trans hnone)⟩
      · exact Or.inr (vouches_of_row hrow rfl hst hy)
  unfold attemptProviderCancel
  split_ifs
  · trivial
  · split
    · trivial
    · refine (hcancel _).attempt.bind fun r => ?_
      split
      · trivial
      · split_ifs <;> trivial

theorem cancelRetrieval_obeys (ws : WorkspaceId) (h : HandleId) :
    (cancelRetrieval cfg ws h n.presented).Obeys (rowTransactions cfg) n fun _ _ => True := by
  unfold cancelRetrieval
  rw [obeys_bind, obeys_perform]
  refine ⟨trivial, ?_⟩
  rintro (e | now) n1 ⟨hle1, -⟩
  · trivial
  rw [afterBind_ok]
  split
  · trivial
  rename_i identity hidentity
  obtain rfl := parseEdlToken_eq_ok hidentity
  split
  · trivial
  refine obeys_only_bind (Only.attempt (only_perform.2 trivial)) fun r n2 hle2 => ?_
  split
  · trivial
  · trivial
  · trivial
  rw [obeys_bind, obeys_perform]
  refine ⟨cancelRow_disciplined, ?_⟩
  rintro (e | rows) n3 ⟨hle3, hseen, -⟩
  · trivial
  rw [afterBind_ok]
  have hpresented : n.presented = n3.presented :=
    (hle3.presented.trans (hle2.presented.trans hle1.presented)).symm
  split
  · trivial
  rename_i row rest
  split
  · trivial
  rename_i hterminal
  split
  · trivial
  rw [hpresented]
  exact obeys_only_true
    (only_map (attemptProviderCancel_mayDo (hseen row List.mem_cons_self) hterminal))

/-! ### Every program -/

theorem runTask_obeys {id : ArqId} {p : Program Unit}
    (hp : p.Obeys (rowTransactions cfg) n fun _ _ => True) :
    (runTask id p).Obeys (rowTransactions cfg) n fun _ _ => True := by
  unfold runTask
  rw [obeys_bind, obeys_attempt]
  refine hp.mono fun r n' _ => ?_
  rw [afterBind_ok]
  split
  · exact obeys_only_true (only_map (only_perform.2 trivial))
  · exact obeys_only_bind (only_perform.2 trivial) fun _ _ _ => trivial

/-- Every program of the service does what its thread may do. -/
theorem program_obeys (cfg : Settings) (g : Origin) :
    (g.program cfg).Obeys (rowTransactions cfg) { presented := g.presented }
      fun _ _ => True := by
  cases g with
  | task id t j =>
    refine runTask_obeys ?_
    cases t with
    | submitJob => exact submitJob_obeys j
    | pollJob => exact pollJob_obeys j
    | materializeJob => exact materializeJob_obeys j
  | startup => exact obeys_only_true (only_map ((startup_only cfg).mono fun _ => ReclaimOp.mayDo))
  | sweepStalledJobs =>
    exact obeys_only_true (only_map ((sweepStalledJobs_only cfg).mono fun _ => ReclaimOp.mayDo))
  | evictionSweep svc p =>
    exact obeys_only_true (only_map ((sweep_only svc p).mono fun _ => SweepOp.mayDo))
  | retrieveSubset ws r t =>
    exact obeys_only_true
      (only_map ((submitRetrieval_only cfg ws _ _ t).mono fun _ => RetrievalOp.mayDo))
  | retrieveData ws r t =>
    exact obeys_only_true
      (only_map ((submitRetrieval_only cfg ws _ _ t).mono fun _ => RetrievalOp.mayDo))
  | rematerialize ws h t =>
    exact obeys_only_true
      (only_map ((rematerialize_only cfg ws h t).mono fun _ => RetrievalOp.mayDo))
  | cancelRetrieval ws h t =>
    let start : RowNotes := { presented := t }
    have h : (EarthdataMcp.cancelRetrieval cfg ws h t).Obeys (rowTransactions cfg) start
        fun _ _ => True := cancelRetrieval_obeys (n := start) ws h
    refine obeys_bind.2 (h.mono fun r n' _ => ?_)
    cases r <;> trivial
  | exportResult ws h t =>
    exact obeys_only_true (only_map ((exportResult_only ws h t).mono fun _ => ReadingOp.mayDo))
  | pinResult ws h p t =>
    exact obeys_only_true (only_map ((pinResult_only cfg ws h p t).mono fun _ => ReadingOp.mayDo))
  | emitCube ws cube =>
    exact obeys_only_true (only_map ((emitCube_only cfg ws cube).mono fun _ => CubeOp.mayDo))

end programs

/-- Under READ COMMITTED too. -/
theorem readCommitted_obeys (cfg : Settings) (g : Origin) :
    ((readCommitted cfg).program g).Obeys (rowProtocol cfg) ((rowMonitor cfg).start g)
      fun _ _ => True :=
  (program_obeys cfg g).interpret fun _ _ ho => openTransaction_obeys ho

end EarthdataMcp
