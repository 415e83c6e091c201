import EarthdataMcp.Jobs.RowNotes

/-!
# Credentials

A row keeps the credential it was created with until the job has ended, and has none from
then on, along every run in which no commit reopens a row that has ended; and then every
call for a job that was created with a token goes out under that token.

* `JobTable.mintedFor`, the credential a job was created with; `Job.Sound`;
* `Reopened`: a commit is about to move a row that has ended back to a state that has not;
* `Confined`: a row stores its credential exactly until it has ended, and calls are made under it;
* `confined_of_reach`, and the run in which a poll reopens a cancelled job and its result is
  fetched without the caller's token.
-/

namespace EarthdataMcp

open Concurrency Concurrency.Prog Concurrency.System

/-- The credential a job was created with. -/
def JobTable.mintedFor (t : JobTable) (j : JobId) : Option Credential := t.minted[j]?.join

/-- The row stores what it should: its own credential, or none once it has ended. -/
structure Job.Sound (t : JobTable) (row : Job) : Prop where
  known : row.jobId < t.minted.length
  credential :
    row.credentialEncrypted = if row.state.Terminal then none else t.mintedFor row.jobId

theorem Job.Sound.of_open {t : JobTable} {row : Job} (h : row.Sound t)
    (hst : ¬ row.state.Terminal) : row.credentialEncrypted = t.mintedFor row.jobId := by
  rw [h.credential, if_neg hst]

theorem Job.Sound.of_ended {t : JobTable} {row : Job} (h : row.Sound t)
    (hst : row.state.Terminal) : row.credentialEncrypted = none := by
  rw [h.credential, if_pos hst]

theorem Job.Sound.eq_none {t : JobTable} {row : Job} (h : row.Sound t)
    (hm : t.mintedFor row.jobId = none) : row.credentialEncrypted = none := by
  rw [h.credential, hm]
  split_ifs <;> rfl

/-! ### Reopened rows -/

/-- Some row the commit moves to a state that has not ended has ended by now, and was created
with a credential. -/
def Reopened (now : Time) (t : JobTable) (rows : List Job) (edit : Edit) : Prop :=
  ∃ read ∈ rows, (∃ new ∈ edit.movesTo now read, ¬ new.Terminal) ∧
    ∃ job ∈ t.rows, job.jobId = read.jobId ∧ job.state.Terminal ∧
      t.mintedFor job.jobId ≠ none

instance (now : Time) (t : JobTable) (rows : List Job) (edit : Edit) :
    Decidable (Reopened now t rows edit) :=
  inferInstanceAs (Decidable (∃ read ∈ rows, _ ∧ ∃ job ∈ t.rows, _))

/-- The operation is not a commit that reopens a row. -/
def World.KeepsEnded (w : World) : Op → Prop
  | .jobs (.commit rows edit) => ¬ Reopened w.clock w.jobs rows edit
  | _ => True

instance (w : World) : (o : Op) → Decidable (w.KeepsEnded o)
  | .jobs (.commit _ _) => inferInstanceAs (Decidable (¬ _))
  | .now | .jobs (.read _) | .jobs (.transact _ _) | .jobs (.create _) | .handles _ | .storage _
  | .queue _ | .provider _ | .planning _ | .access _ | .provenance _ | .orphanSweepDue _ =>
    instDecidableTrue

/-- What one commit makes of one row. -/
structure CommitSound (t : JobTable) (job job' : Job) : Prop where
  jobId : job'.jobId = job.jobId
  sound : job'.Sound t
  ended : job.state.Terminal → t.mintedFor job.jobId ≠ none → job'.state.Terminal

/-- A transaction that does not change the state of a sound row does not change its
credential. -/
theorem Job.Moves.credential_eq {t : JobTable} {read new : Job} (h : read.Moves new)
    (hread : read.Sound t) (hs : new.state = read.state) :
    new.credentialEncrypted = read.credentialEncrypted := by
  rcases h.credential with ⟨-, hc⟩ | hc
  · exact hc
  · rw [hc, hs]
    split_ifs with hst
    · exact (hread.of_ended hst).symm
    · rfl

/-- One that does erases it exactly if the new state has ended. -/
theorem Job.Moves.credential_of_ne {read new : Job} (h : read.Moves new)
    (hs : new.state ≠ read.state) :
    new.credentialEncrypted = if new.state.Terminal then none else read.credentialEncrypted := by
  rcases h.credential with ⟨hs', -⟩ | hc
  · exact absurd hs' hs
  · exact hc

theorem mergeRow_state_of_eq {now : Time} {read new job : Job} (h : new.state = read.state) :
    (mergeRow now read new job).state = job.state := by
  rw [mergeRow_state, mergeColumn, if_pos h]

theorem mergeRow_state_of_ne {now : Time} {read new job : Job} (h : new.state ≠ read.state) :
    (mergeRow now read new job).state = new.state := by
  rw [mergeRow_state, mergeColumn, if_neg h]

theorem mergeRow_credential_of_eq {now : Time} {read new job : Job}
    (h : new.credentialEncrypted = read.credentialEncrypted) :
    (mergeRow now read new job).credentialEncrypted = job.credentialEncrypted := by
  rw [mergeRow_credentialEncrypted, mergeColumn, if_pos h]

/-- A commit of a row that was sound when it was read keeps a sound row sound, if it does not
reopen it. -/
theorem mergeRow_sound {now : Time} {t : JobTable} {read new job : Job} (hmoves : read.Moves new)
    (hid : read.jobId = job.jobId) (hread : read.Sound t) (hjob : job.Sound t)
    (hended : read.state.Terminal → t.mintedFor job.jobId ≠ none → job.state.Terminal)
    (hopen : new.state ≠ read.state → ¬ new.state.Terminal → job.state.Terminal →
      t.mintedFor job.jobId = none) :
    CommitSound t job (mergeRow now read new job) := by
  refine ⟨mergeRow_jobId .., ⟨by rw [mergeRow_jobId]; exact hjob.known, ?_⟩, fun hst hm => ?_⟩
  · rw [mergeRow_jobId]
    by_cases hs : new.state = read.state
    · rw [mergeRow_state_of_eq hs, mergeRow_credential_of_eq (hmoves.credential_eq hread hs)]
      exact hjob.credential
    rw [mergeRow_state_of_ne hs]
    have hnew := hmoves.credential_of_ne hs
    by_cases hst : new.state.Terminal
    · rw [if_pos hst] at hnew ⊢
      rw [mergeRow_credentialEncrypted, mergeColumn]
      split_ifs with heq
      · -- nothing was erased: the row as it was read had no credential
        by_cases hm : t.mintedFor job.jobId = none
        · exact hjob.eq_none hm
        · have hreadEnded : read.state.Terminal := by
            by_contra hopen'
            have hkept := hread.of_open hopen'
            rw [← heq, hnew, hid] at hkept
            exact hm hkept.symm
          exact hjob.of_ended (hended hreadEnded hm)
      · exact hnew
    · rw [if_neg hst] at hnew ⊢
      rw [mergeRow_credential_of_eq hnew]
      by_cases hjobEnded : job.state.Terminal
      · have hm := hopen hs hst hjobEnded
        rw [hm, hjob.eq_none hm]
      · exact hjob.of_open hjobEnded
  · by_cases hs : new.state = read.state
    · rw [mergeRow_state_of_eq hs]; exact hst
    · rw [mergeRow_state_of_ne hs]
      by_contra hopen'
      exact hm (hopen hs hopen' hst)

/-! ### The table -/

/-- How one step may change the table: what was minted stays, rows keep their place, and a
row that has ended and was created with a credential stays so. -/
structure JobTable.Keeps (t t' : JobTable) : Prop where
  grows : t.minted.length ≤ t'.minted.length
  minted : ∀ j < t.minted.length, t'.mintedFor j = t.mintedFor j
  ended : ∀ job' ∈ t'.rows, job'.jobId < t.minted.length → ∃ job ∈ t.rows,
    job.jobId = job'.jobId ∧
      (job.state.Terminal → t.mintedFor job.jobId ≠ none → job'.state.Terminal)

theorem JobTable.Keeps.refl (t : JobTable) : t.Keeps t :=
  ⟨le_rfl, fun _ _ => rfl, fun job hjob _ => ⟨job, hjob, rfl, fun h _ => h⟩⟩

theorem Job.Sound.keeps {t t' : JobTable} {row : Job} (h : row.Sound t) (hk : t.Keeps t') :
    row.Sound t' :=
  ⟨h.known.trans_le hk.grows, by rw [hk.minted _ h.known]; exact h.credential⟩

/-- A row as a thread remembers it: it was sound, and if it had ended it still has. -/
structure Job.Remembered (t : JobTable) (row : Job) : Prop where
  sound : row.Sound t
  ended : row.state.Terminal → t.mintedFor row.jobId ≠ none →
    ∀ job ∈ t.rows, job.jobId = row.jobId → job.state.Terminal

theorem Job.Remembered.keeps {t t' : JobTable} {row : Job} (h : row.Remembered t)
    (hk : t.Keeps t') : row.Remembered t' := by
  refine ⟨h.sound.keeps hk, fun hst hm job' hjob' hid => ?_⟩
  rw [hk.minted _ h.sound.known] at hm
  obtain ⟨job, hjob, hid', hend⟩ := hk.ended job' hjob' (hid ▸ h.sound.known)
  exact hend (h.ended hst hm job hjob (hid'.trans hid)) (hid'.trans hid ▸ hm)

theorem JobTable.commit_sound {now : Time} {t : JobTable} {rows : List Job} {edit : Edit}
    (hedit : edit.Disciplined) (hopen : ¬ Reopened now t rows edit)
    (hrows : ∀ row ∈ rows, row.Remembered t) {job : Job} (hjob : job ∈ t.rows)
    (hsound : job.Sound t) : CommitSound t job (commitRow now edit rows job) := by
  rcases commitRow_cases now edit rows job with h | ⟨read, hread, new, hid, hnew, h⟩
  · rw [h]
    exact ⟨rfl, hsound, fun hst _ => hst⟩
  rw [h]
  have hrem := hrows read hread
  refine mergeRow_sound (hedit now read new hnew) hid hrem.sound hsound ?_ ?_
  · exact fun hst hm => hrem.ended hst (hid ▸ hm) job hjob hid.symm
  · intro hs hst hjobEnded
    by_contra hm
    exact hopen ⟨read, hread, ⟨new.state, edit.movesTo_eq hnew hs, hst⟩, job, hjob, hid.symm,
      hjobEnded, hm⟩

/-- One operation of the table keeps every row sound. -/
theorem JobTable.exec_sound (now : Time) {t : JobTable} {o : JobOp} (ho : o.Disciplined)
    (hsplit : ∀ q edit, o ≠ .transact q edit)
    (hopen : ∀ rows edit, o = .commit rows edit → ¬ Reopened now t rows edit)
    (hrows : ∀ rows edit, o = .commit rows edit → ∀ row ∈ rows, row.Remembered t)
    (hsound : ∀ row ∈ t.rows, row.Sound t) :
    t.Keeps (t.exec now o).2 ∧ ∀ row ∈ (t.exec now o).2.rows, row.Sound (t.exec now o).2 := by
  cases o with
  | read q => exact ⟨.refl t, hsound⟩
  | transact q edit => exact absurd rfl (hsplit q edit)
  | commit rows edit =>
    simp only [JobTable.exec]
    split
    · exact ⟨.refl t, hsound⟩
    · have hcommit {job : Job} (hjob : job ∈ t.rows) :=
        commit_sound ho (hopen rows edit rfl) (hrows rows edit rfl) hjob (hsound job hjob)
      constructor
      · refine ⟨le_rfl, fun _ _ => rfl, fun job' hjob' _ => ?_⟩
        obtain ⟨job, hjob, rfl⟩ := List.mem_map.1 hjob'
        exact ⟨job, hjob, (hcommit hjob).jobId.symm, (hcommit hjob).ended⟩
      · intro job' hjob'
        obtain ⟨job, hjob, rfl⟩ := List.mem_map.1 hjob'
        exact ⟨(hcommit hjob).sound.known, (hcommit hjob).sound.credential⟩
  | create new =>
    have hkeeps : t.Keeps (t.exec now (.create new)).2 := by
      refine ⟨by simp [JobTable.exec], fun j hj => ?_, fun job' hjob' hlt => ?_⟩
      · show (t.minted ++ [new.credentialEncrypted])[j]?.join = t.minted[j]?.join
        rw [List.getElem?_append_left hj]
      · rcases List.mem_append.1 hjob' with hjob | hjob
        · exact ⟨job', hjob, rfl, fun h _ => h⟩
        · obtain rfl := List.mem_singleton.1 hjob
          exact absurd hlt (lt_irrefl _)
    refine ⟨hkeeps, fun row hrow => ?_⟩
    rcases List.mem_append.1 hrow with hrow | hrow
    · exact (hsound row hrow).keeps hkeeps
    · obtain rfl := List.mem_singleton.1 hrow
      refine ⟨?_, ?_⟩
      · show t.minted.length < (t.minted ++ [new.credentialEncrypted]).length
        simp
      · show new.credentialEncrypted = (t.minted ++ [new.credentialEncrypted])[t.minted.length]?.join
        simp

/-! ### Calls -/

/-- The token is the one the job was created with, if it was created with one. -/
structure JobTable.OwnToken (t : JobTable) (j : JobId) (token : Option Token) : Prop where
  known : j < t.minted.length
  own : ∀ c, t.mintedFor j = some c → token = some c.token

/-- A call made for a job goes out under the job's own token; a cancel may also go out under
the token of the caller who asked for it. -/
def Call.Sound (t : JobTable) (presented : Option Token → Prop) : Call → Prop
  | .submit j _ token => t.OwnToken j token
  | .created _ _ _ => True
  | .poll j _ token => t.OwnToken j token
  | .fetch j _ token => t.OwnToken j token
  | .cancel j _ _ token => t.OwnToken j token ∨ presented token

theorem JobTable.OwnToken.keeps {t t' : JobTable} {j : JobId} {token : Option Token}
    (h : t.OwnToken j token) (hk : t.Keeps t') : t'.OwnToken j token :=
  ⟨h.known.trans_le hk.grows, by rw [hk.minted j h.known]; exact h.own⟩

theorem Call.Sound.mono {t t' : JobTable} {presented presented' : Option Token → Prop}
    {call : Call} (h : call.Sound t presented) (hk : t.Keeps t')
    (hp : ∀ token, presented token → presented' token) : call.Sound t' presented' := by
  cases call with
  | submit j p token => exact JobTable.OwnToken.keeps h hk
  | created j p url => trivial
  | poll j p token => exact JobTable.OwnToken.keeps h hk
  | fetch j p token => exact JobTable.OwnToken.keeps h hk
  | cancel j p url token =>
    rcases h with h | h
    · exact Or.inl (h.keeps hk)
    · exact Or.inr (hp token h)

/-! ### The invariant -/

section invariant

variable {cfg : Settings}

/-- A caller of `cancelRetrieval` has presented this token. -/
def PresentedToCancel (s : (readCommitted cfg).State) (token : Option Token) : Prop :=
  token ≠ none ∧ ∃ th ∈ s.threads, ∃ ws h, th.origin = .cancelRetrieval ws h token

/-- Rows are sound, threads remember sound rows, and every call so far was sound. -/
structure CredentialInv (s : (readCommitted cfg).State) : Prop where
  indexed : s.world.jobs.Indexed
  rows : ∀ row ∈ s.world.jobs.rows, row.Sound s.world.jobs
  keys : ∀ j c, s.world.jobs.mintedFor j = some c → c.key ∈ cfg.earthdataCredentialKey
  seen : ∀ th ∈ s.threads, ∀ row ∈ ((rowMonitor cfg).note th).seen,
    row.Remembered s.world.jobs
  calls : ∀ call ∈ s.world.calls, call.Sound s.world.jobs (PresentedToCancel s)

theorem CredentialInv.remembered {s : (readCommitted cfg).State} (h : CredentialInv s) {row : Job}
    (hrow : row ∈ s.world.jobs.rows) : row.Remembered s.world.jobs := by
  refine ⟨h.rows row hrow, fun hst _ job hjob hid => ?_⟩
  rw [h.indexed.eq_of_jobId hjob hrow hid]
  exact hst

/-- What a thread's row vouches for is the job's own token. -/
theorem CredentialInv.ownToken {s : (readCommitted cfg).State} (h : CredentialInv s)
    {th : (readCommitted cfg).Thread} (hth : th ∈ s.threads) {j : JobId} {token : Option Token}
    (hv : ((rowMonitor cfg).note th).Vouches cfg j token) : s.world.jobs.OwnToken j token := by
  obtain ⟨row, hrow, rfl, hst, hy⟩ := hv
  have hsound := (h.seen th hth row hrow).sound
  refine ⟨hsound.known, fun c hc => hy c ?_ (h.keys _ _ hc)⟩
  rw [hsound.of_open hst, hc]

theorem CredentialInv.initial : CredentialInv (initial : (readCommitted cfg).State) where
  indexed := rfl
  rows _ h := absurd h List.not_mem_nil
  keys _ _ h := by cases h
  seen _ h := absurd h List.not_mem_nil
  calls _ h := absurd h List.not_mem_nil

/-- Threads keep their origins. -/
theorem PresentedToCancel.act {s : (readCommitted cfg).State} {token : Option Token}
    (h : PresentedToCancel s token) {i : ℕ} {th : (readCommitted cfg).Thread} {o : Op}
    {a : Except Exn o.Ans} {k : Except Exn o.Ans → Program Outcome} {w : World}
    (hth : s.threads[i]? = some th) :
    PresentedToCancel (⟨w, s.threads.set i (th.advance o a k)⟩ : (readCommitted cfg).State) token := by
  obtain ⟨hne, u, hu, ws, hd, horigin⟩ := h
  obtain ⟨n, hn⟩ := List.mem_iff_getElem?.1 hu
  by_cases hni : n = i
  · subst hni
    obtain rfl : th = u := Option.some.inj (hth.symm.trans hn)
    refine ⟨hne, th.advance o a k, ?_, ws, hd, horigin⟩
    exact List.mem_iff_getElem?.2 ⟨n, by simp [(List.getElem?_eq_some_iff.1 hn).1]⟩
  · refine ⟨hne, u, List.mem_iff_getElem?.2 ⟨n, ?_⟩, ws, hd, horigin⟩
    rw [← hn]
    exact List.getElem?_set_ne (Ne.symm hni)

/-- What every operation has to show. -/
theorem CredentialInv.act {s : (readCommitted cfg).State} (h : CredentialInv s) {i : ℕ}
    {th : (readCommitted cfg).Thread} {o : Op} {c : Choice} {a : Except Exn o.Ans}
    {k : Except Exn o.Ans → Program Outcome} {w : World} (hth : s.threads[i]? = some th)
    (he : s.world.exec o c = some (a, w)) (hkeeps : s.world.jobs.Keeps w.jobs)
    (hindexed : w.jobs.Indexed) (hrows : ∀ row ∈ w.jobs.rows, row.Sound w.jobs)
    (hkeys : ∀ j c, w.jobs.mintedFor j = some c → c.key ∈ cfg.earthdataCredentialKey)
    (hcalls : ∀ call ∈ w.calls, call ∈ s.world.calls ∨
      call.Sound s.world.jobs (PresentedToCancel s)) :
    CredentialInv (⟨w, s.threads.set i (th.advance o a k)⟩ : (readCommitted cfg).State) where
  indexed := hindexed
  rows := hrows
  keys := hkeys
  seen := by
    intro u hu row hrow
    rcases List.mem_or_eq_of_mem_set hu with hu | rfl
    · exact (h.seen u hu row hrow).keeps hkeeps
    · rw [Monitor.note_advance] at hrow
      rcases List.mem_append.1 hrow with hrow | hrow
      · exact (h.remembered (World.rowsRead_mem he hrow).1).keeps hkeeps
      · exact (h.seen th (List.mem_of_getElem? hth) row hrow).keeps hkeeps
  calls := by
    intro call hcall
    have hsound : call.Sound s.world.jobs (PresentedToCancel s) :=
      (hcalls call hcall).elim (h.calls call) id
    exact hsound.mono hkeeps fun token hp => hp.act hth

/-- The key of a new credential is one of the configured ones. -/
theorem CredentialInv.newKey {s : (readCommitted cfg).State} (h : CredentialInv s)
    {th : (readCommitted cfg).Thread} (hth : th ∈ s.threads) {new : NewJob}
    (hmay : ((rowMonitor cfg).note th).MayDo cfg (.jobs (.create new))) {c : Credential}
    (hc : new.credentialEncrypted = some c) : c.key ∈ cfg.earthdataCredentialKey := by
  rcases hmay with hown | ⟨row, hrow, heq⟩
  · exact hown c hc
  · have hsound := (h.seen th hth row hrow).sound
    rw [hc] at heq
    by_cases hst : row.state.Terminal
    · rw [hsound.of_ended hst] at heq
      cases heq
    · exact h.keys row.jobId c ((hsound.of_open hst).symm.trans heq)

/-- A call that a thread may make is sound. -/
theorem CredentialInv.callSound {s : (readCommitted cfg).State} (h : CredentialInv s)
    {th : (readCommitted cfg).Thread} (hth : th ∈ s.threads) {o : ProviderOp}
    (hmay : ((rowMonitor cfg).note th).MayDo cfg (.provider o)) :
    o.call.Sound s.world.jobs (PresentedToCancel s) := by
  cases o with
  | submit j spec token => exact h.ownToken hth hmay
  | poll j p url token => exact h.ownToken hth hmay
  | fetch j p url token => exact h.ownToken hth hmay
  | cancel j p url token =>
    rcases hmay with ⟨hp, hne⟩ | hv
    · rw [rowMonitor_presented] at hp
      refine Or.inr ⟨hne, th, hth, ?_⟩
      cases horigin : th.origin with
      | cancelRetrieval ws hd token' =>
        rw [horigin] at hp
        obtain rfl : token = token' := hp
        exact ⟨ws, hd, rfl⟩
      | _ =>
        rw [horigin] at hp
        exact absurd hp hne
    · exact Or.inl (h.ownToken hth hv)

/-- One operation keeps the invariant, if it does not reopen a row. -/
theorem CredentialInv.step {s : (readCommitted cfg).State} (h : CredentialInv s) {i : ℕ}
    {th : (readCommitted cfg).Thread} {o : Op} {c : Choice} {a : Except Exn o.Ans}
    {k : Except Exn o.Ans → Program Outcome} {w : World} (hth : s.threads[i]? = some th)
    (hmay : ((rowMonitor cfg).note th).MayDo cfg o)
    (hsplit : ∀ q edit, o ≠ .jobs (.transact q edit)) (hkeep : s.world.KeepsEnded o)
    (he : s.world.exec o c = some (a, w)) :
    CredentialInv (⟨w, s.threads.set i (th.advance o a k)⟩ : (readCommitted cfg).State) := by
  have hmem : th ∈ s.threads := List.mem_of_getElem? hth
  by_cases hj : ∃ jo, o = .jobs jo
  · obtain ⟨jo, rfl⟩ := hj
    have hdis : jo.Disciplined := by
      cases jo with
      | commit rows edit => exact hmay.1
      | transact q edit => exact hmay
      | _ => trivial
    have hcalls := World.exec_calls_eq_self he fun x hx => by cases hx
    rcases World.exec_jobs he with ⟨-, -, rfl⟩ | ⟨e, -, rfl⟩
    · obtain ⟨hkeeps, hrows⟩ := JobTable.exec_sound s.world.clock hdis
        (fun q edit hq => hsplit q edit (congrArg _ hq))
        (by rintro rows edit rfl; exact hkeep)
        (by rintro rows edit rfl row hrow; exact h.seen th hmem row (hmay.2 row hrow)) h.rows
      refine h.act hth he hkeeps (h.indexed.exec hdis) hrows ?_ fun call hc => Or.inl hc
      intro j c' hc'
      cases jo with
      | create new =>
        by_cases hlt : j < s.world.jobs.minted.length
        · rw [hkeeps.minted j hlt] at hc'
          exact h.keys j c' hc'
        · have hget : (s.world.jobs.minted ++ [new.credentialEncrypted])[j]?.join = some c' := hc'
          rw [List.getElem?_append_right (not_lt.1 hlt)] at hget
          refine h.newKey hmem hmay ?_
          cases hsub : j - s.world.jobs.minted.length with
          | zero => simpa [hsub] using hget
          | succ m => simp [hsub] at hget
      | read q => exact h.keys j c' hc'
      | transact q edit => exact absurd rfl (hsplit q edit)
      | commit rows edit =>
        refine h.keys j c' ?_
        simp only [JobTable.exec] at hc'
        split at hc' <;> exact hc'
    · exact h.act hth he (.refl _) h.indexed h.rows h.keys fun call hc => Or.inl hc
  · have hjobs := World.exec_jobs_eq_self he (not_exists.1 hj)
    refine h.act hth he (by rw [hjobs]; exact .refl _) (by rw [hjobs]; exact h.indexed)
      (by rw [hjobs]; exact h.rows) (by rw [hjobs]; exact h.keys) ?_
    by_cases hp : ∃ po, o = .provider po
    · obtain ⟨po, rfl⟩ := hp
      obtain ⟨-, rfl⟩ := World.exec_provider he
      intro call hcall
      rcases List.mem_append.1 hcall with hcall | hcall
      · exact Or.inl hcall
      rcases List.mem_cons.1 hcall with rfl | hcall
      · exact Or.inr (h.callSound hmem hmay)
      · right
        unfold ProviderOp.creates at hcall
        split at hcall
        · obtain rfl := List.mem_singleton.1 hcall; trivial
        · obtain rfl := List.mem_singleton.1 hcall; trivial
        · cases hcall
    · rw [World.exec_calls_eq_self he (not_exists.1 hp)]
      exact fun call hc => Or.inl hc

theorem CredentialInv.env {s : (readCommitted cfg).State} (h : CredentialInv s) {e : EnvStep}
    {w : World} {gs : List Origin} (he : e.exec s.world = some (w, gs)) :
    CredentialInv (⟨w, s.threads ++ gs.map (readCommitted cfg).spawn⟩ : (readCommitted cfg).State) := by
  have hjobs := EnvStep.exec_jobs he
  have hcalls := EnvStep.exec_calls he
  constructor
  · show w.jobs.Indexed
    rw [hjobs]; exact h.indexed
  · show ∀ row ∈ w.jobs.rows, row.Sound w.jobs
    rw [hjobs]; exact h.rows
  · show ∀ j c, w.jobs.mintedFor j = some c → c.key ∈ cfg.earthdataCredentialKey
    rw [hjobs]; exact h.keys
  · intro u hu row hrow
    show row.Remembered w.jobs
    rw [hjobs]
    rcases List.mem_append.1 hu with hu | hu
    · exact h.seen u hu row hrow
    · obtain ⟨g, -, rfl⟩ := List.mem_map.1 hu
      exact absurd hrow List.not_mem_nil
  · intro call hcall
    show call.Sound w.jobs _
    have hcall' : call ∈ s.world.calls := hcalls ▸ hcall
    rw [hjobs]
    refine (h.calls call hcall').mono (.refl _) fun token ⟨hne, u, hu, hrest⟩ => ?_
    exact ⟨hne, u, List.mem_append_left _ hu, hrest⟩

/-! ### Credentials are confined to the life of a job -/

/-- No step of the run reopens a row that has ended. -/
abbrev NeverReopened :
    (readCommitted cfg).State → (readCommitted cfg).Label → (readCommitted cfg).State → Prop :=
  EachOp fun s _ o => World.KeepsEnded s.world o

theorem credentialInv_of_reach {s : (readCommitted cfg).State}
    (hs : Reach NeverReopened initial s) : CredentialInv s := by
  refine (Reach.invariant (M := rowMonitor cfg) (readCommitted_obeys cfg) ?_ ?_ hs .initial
    fun t ht => absurd ht List.not_mem_nil).2
  · intro s i th o k c a w hinv hth hr hmay he hP
    exact ⟨World.told he, hinv.step hth hmay.1 hmay.2 (hP o (nextOp_eq hth hr)) he⟩
  · exact fun s e w gs hinv he _ => hinv.env he

/-- A row that has ended stores no credential, any other the one it was created with; and a
call for a job that was created with a token is made under that token.  A cancel may be made
under the token that a caller of `cancelRetrieval` has presented instead. -/
structure Confined (s : (readCommitted cfg).State) : Prop where
  erased : ∀ row ∈ s.world.jobs.rows, row.state.Terminal → row.credentialEncrypted = none
  kept : ∀ row ∈ s.world.jobs.rows, ¬ row.state.Terminal →
    row.credentialEncrypted = s.world.jobs.mintedFor row.jobId
  submit : ∀ j p token c, .submit j p token ∈ s.world.calls →
    s.world.jobs.mintedFor j = some c → token = some c.token
  poll : ∀ j p token c, .poll j p token ∈ s.world.calls →
    s.world.jobs.mintedFor j = some c → token = some c.token
  fetch : ∀ j p token c, .fetch j p token ∈ s.world.calls →
    s.world.jobs.mintedFor j = some c → token = some c.token
  cancel : ∀ j p url token c, .cancel j p url token ∈ s.world.calls →
    s.world.jobs.mintedFor j = some c → token = some c.token ∨ PresentedToCancel s token

/-- Along every run that reopens no row, credentials are confined. -/
theorem confined_of_reach {s : (readCommitted cfg).State} (hs : Reach NeverReopened initial s) :
    Confined s := by
  have hinv := credentialInv_of_reach hs
  refine ⟨fun row hrow => (hinv.rows row hrow).of_ended, fun row hrow => (hinv.rows row hrow).of_open,
    fun j p token c hcall => ?_, fun j p token c hcall => ?_, fun j p token c hcall => ?_, ?_⟩
  · exact (show s.world.jobs.OwnToken j token from hinv.calls _ hcall).own c
  · exact (show s.world.jobs.OwnToken j token from hinv.calls _ hcall).own c
  · exact (show s.world.jobs.OwnToken j token from hinv.calls _ hcall).own c
  · intro j p url token c hcall hc
    have hsound : s.world.jobs.OwnToken j token ∨ PresentedToCancel s token :=
      hinv.calls _ hcall
    exact hsound.imp_left fun h => h.own c hc

end invariant

/-! ### A result fetched -/

/-- The poll commits, and the task it enqueues, thread `i`, fetches the result; `identity` are
its steps up to there. -/
def resultFetched (i : ℕ) (identity : List Choice) : List (readCommitted .oneKey).Label :=
  acts 3 [.ok, .ok, .ok] ++
  take (.fresh 3) :: acts i (identity ++
    [.capabilities {}, .fetched (resultNamed "out.nc")])

theorem confined_of_reach_fetch : ∃ s : (readCommitted .oneKey).State,
    .fetch 0 .harmony (some { text := "edl" }) ∈ s.world.calls ∧ Confined s := by
  obtain ⟨s, hs, hcall⟩ := exists_reach (P := NeverReopened) (s := initial)
    (p := fun s => (.fetch 0 .harmony (some { text := "edl" }) ∈ s.world.calls : Bool))
    (secondPollHasRead ++ resultFetched 4 [.ok, .ok, .ok]) (by decide +kernel)
  exact ⟨s, of_decide_eq_true hcall, confined_of_reach hs⟩

/-- The row is cancelled while the poll commits: the materialization that follows finds no
credential, and fetches the result under the service's own identity. -/
theorem not_confined : ¬ ∀ (cfg : Settings) (s : (readCommitted cfg).State),
    Reachable initial s → Confined s := by
  intro h
  obtain ⟨s, hs, hp⟩ := exists_reach (P := fun _ _ _ => True) (s := initial)
    (p := fun s => (.fetch 0 .harmony none ∈ s.world.calls : Bool) &&
      s.world.jobs.mintedFor 0 = some ⟨7, { text := "edl" }⟩)
    (secondPollHasRead ++ cancelCommits ++ resultFetched 5 [.ok, .ok]) (by decide +kernel)
  obtain ⟨hcall, hminted⟩ := Bool.and_eq_true_iff.1 hp
  cases (h .oneKey s hs).fetch 0 .harmony none _ (of_decide_eq_true hcall)
    (of_decide_eq_true hminted)

end EarthdataMcp
