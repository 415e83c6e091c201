import EarthdataMcp.Concurrency.Machine
import EarthdataMcp.Concurrency.Sequential
import EarthdataMcp.Concurrency.SharedRecord
import EarthdataMcp.World

/-!
# `update_handle` in two steps

`update_handle` loads a row, merges its update into the payload it has loaded, and commits;
under READ COMMITTED other calls run between the two.

* `PayloadKey`, and the payload as a record with keys (`payloadFields`);
* `updateHandle`, step by step, which run alone is the method of the store
  (`updateHandle_runAlone`), and `updates`, any number of calls on one handle;
* `Handle.CommitsWhatItRead`: a commit that changes something finds the payload as it was read;
* `noLostUpdate_iff`: no update is lost in a run exactly if every commit does so.
-/

namespace EarthdataMcp

open Concurrency Concurrency.Prog Concurrency.System

/-! ### A payload as a record -/

/-- The keys of a payload that an update can set. -/
inductive PayloadKey
  | status
  | storageKey
  | mediaType
  | sizeBytes
  | pinned
  | speculative
  | contentDigest
  | isPartial
  | granuleCount
  deriving DecidableEq, Repr

/-- What is stored under a key. -/
@[reducible] def PayloadKey.Value : PayloadKey → Type
  | status => Option HandleStatus
  | storageKey => Option Key
  | mediaType => Option String
  | sizeBytes => Option ℕ
  | pinned => Bool
  | speculative => Bool
  | contentDigest => Option String
  | isPartial => Option Bool
  | granuleCount => Option ℕ

/-- The value under a key. -/
def Payload.value (p : Payload) : (k : PayloadKey) → k.Value
  | .status => p.status
  | .storageKey => p.storageKey
  | .mediaType => p.mediaType
  | .sizeBytes => p.sizeBytes
  | .pinned => p.pinned
  | .speculative => p.speculative
  | .contentDigest => p.contentDigest
  | .isPartial => p.isPartial
  | .granuleCount => p.granuleCount

/-- The value an update sets a key to, if it sets it. -/
def PayloadUpdate.value (u : PayloadUpdate) : (k : PayloadKey) → Option k.Value
  | .status => u.status.map some
  | .storageKey => u.storageKey
  | .mediaType => u.mediaType.map some
  | .sizeBytes => u.sizeBytes
  | .pinned => u.pinned
  | .speculative => u.speculative
  | .contentDigest => u.contentDigest.map some
  | .isPartial => u.isPartial.map some
  | .granuleCount => u.granuleCount.map some

theorem Payload.merge_value (p : Payload) (u : PayloadUpdate) (k : PayloadKey) :
    (p.merge u).value k = (u.value k).getD (p.value k) := by
  have hor {α : Type} (a b : Option α) : a.or b = (a.map some).getD b := by cases a <;> rfl
  cases k with
  | status => exact hor _ _
  | mediaType => exact hor _ _
  | contentDigest => exact hor _ _
  | isPartial => exact hor _ _
  | granuleCount => exact hor _ _
  | _ => rfl

/-- An update that sets nothing new leaves the payload as it is. -/
theorem Payload.merge_eq_self (p : Payload) (u : PayloadUpdate)
    (h : ∀ k v, u.value k = some v → p.value k = v) : p.merge u = p := by
  have hvalue (k : PayloadKey) : (p.merge u).value k = p.value k := by
    rw [merge_value]
    cases hk : u.value k with
    | none => rfl
    | some v => exact (h k v hk).symm
  have h1 := hvalue .status
  have h2 := hvalue .storageKey
  have h3 := hvalue .mediaType
  have h4 := hvalue .sizeBytes
  have h5 := hvalue .pinned
  have h6 := hvalue .speculative
  have h7 := hvalue .contentDigest
  have h8 := hvalue .isPartial
  have h9 := hvalue .granuleCount
  simp only [Payload.value, Payload.merge] at h1 h2 h3 h4 h5 h6 h7 h8 h9
  simp only [Payload.merge, h1, h2, h3, h4, h5, h6, h7, h8, h9]

/-- Payloads and their updates. -/
def payloadFields : Fields Payload PayloadUpdate where
  Key := PayloadKey
  Value := PayloadKey.Value
  get := Payload.value
  set := PayloadUpdate.value
  merge := Payload.merge
  get_merge := Payload.merge_value
  merge_eq_self := Payload.merge_eq_self

/-! ### The call, step by step -/

/-- The statements of `update_handle`. -/
inductive RowOp
  | get (ws : WorkspaceId) (h : HandleId)
  /-- Assign the merged payload to the row that was read, and commit. -/
  | commit (read : Handle) (update : PayloadUpdate)
  | refresh (h : HandleId)

@[reducible] def RowOp.Ans : RowOp → Type
  | get _ _ => Handle
  | commit _ _ => Unit
  | refresh _ => Handle

/-- The interface of `update_handle`. -/
abbrev RowApi : Concurrency.Interface where
  Op := RowOp
  Ans := RowOp.Ans
  Err := Exn

/-- Merge an update into a handle's payload. -/
def updateHandle (ws : WorkspaceId) (h : HandleId) (update : PayloadUpdate) :
    Prog RowApi Handle := do
  let row ← Prog.perform (I := RowApi) (.get ws h)
  Prog.perform (I := RowApi) (.commit row update)
  Prog.perform (I := RowApi) (.refresh h)

/-- The changed-columns `UPDATE`: the payload as it was read, merged, replaces the payload that
is there by now, unless the merge has changed nothing. -/
def Handle.committed (now : Time) (read : Handle) (update : PayloadUpdate) (row : Handle) :
    Handle :=
  if read.payload.merge update = read.payload then row
  else { row with payload := read.payload.merge update, updatedAt := now }

@[simp] theorem Handle.committed_handle (now : Time) (read : Handle) (update : PayloadUpdate)
    (row : Handle) : (Handle.committed now read update row).handle = row.handle := by
  unfold Handle.committed
  split_ifs <;> rfl

/-- The effect of a statement; one that fails has none. -/
def World.execRow (w : World) : (o : RowOp) → Choice → Option (Except Exn o.Ans × World)
  | .get ws h, .ok => some (w.handles.lookup ws h, w)
  | .commit read update, .ok =>
      some (.ok (),
        { w with handles := w.handles.modify read.handle (Handle.committed w.clock read update) })
  | .refresh h, .ok =>
      match w.handles.row h with
      | some row => some (.ok row, w)
      | none => some (.error (.handleNotFound h), w)
  | _, .fault e => some (.error e, w)
  | _, _ => none

/-- Run by itself, the call is the method of the store. -/
theorem updateHandle_runAlone {w : World} {ws : WorkspaceId} {h : HandleId} {row : Handle}
    {update : PayloadUpdate} (hrow : w.handles.lookup ws h = .ok row)
    (hunique : ∀ row' ∈ w.handles.rows, row'.handle = h → row' = row) :
    (updateHandle ws h update).runAlone World.execRow w [.ok, .ok, .ok] =
      w.exec (.handles (.updateHandle ws h update)) .ok := by
  obtain ⟨hfind, -⟩ := HandleTable.lookup_eq_ok_iff.1 hrow
  have hhandle := HandleTable.row_handle hfind
  have htable : w.handles.modify row.handle (Handle.committed w.clock row update) =
      w.handles.modify h (Handle.updated w.clock update) := by
    unfold HandleTable.modify
    rw [hhandle]
    congr 1
    refine List.map_congr_left fun row' hmem => ?_
    split_ifs with hid
    · rw [hunique row' hmem hid]
      rfl
    · rfl
  have hread : (w.handles.modify h (Handle.updated w.clock update)).row h =
      some (row.updated w.clock update) := by
    rw [HandleTable.row_updated, if_pos rfl, hfind, Option.map_some]
  have hget : w.execRow (.get ws h) .ok = some (.ok row, w) := by rw [World.execRow, hrow]
  have hcommit : w.execRow (.commit row update) .ok = some (.ok (),
      { w with handles := w.handles.modify h (Handle.updated w.clock update) }) := by
    rw [World.execRow, htable]
  have hrefresh : ({ w with handles := w.handles.modify h (Handle.updated w.clock update) } :
      World).execRow (.refresh h) .ok = some (.ok (row.updated w.clock update),
        { w with handles := w.handles.modify h (Handle.updated w.clock update) }) := by
    simp only [World.execRow, hread]
  rw [updateHandle, runAlone_perform_bind hget, runAlone_perform_bind hcommit,
    runAlone_perform hrefresh, World.exec, HandleTable.exec, hrow]

section effect

variable {w w' : World} {c : Choice} {ws : WorkspaceId} {h : HandleId}

theorem execRow_get {a : Except Exn Handle} (he : w.execRow (.get ws h) c = some (a, w')) :
    w' = w ∧ ∀ row, a = .ok row → w.handles.row h = some row := by
  cases c <;> simp [World.execRow] at he
  · obtain ⟨rfl, rfl⟩ := he
    exact ⟨rfl, fun row hrow => (HandleTable.lookup_eq_ok_iff.1 hrow).1⟩
  · obtain ⟨rfl, rfl⟩ := he
    exact ⟨rfl, fun row hrow => by cases hrow⟩

theorem execRow_commit {read : Handle} {update : PayloadUpdate} {a : Except Exn Unit}
    (he : w.execRow (.commit read update) c = some (a, w')) :
    c = .ok ∧ a = .ok () ∧ w' = { w with
        handles := w.handles.modify read.handle (Handle.committed w.clock read update) } ∨
      c ≠ .ok ∧ (∃ e, a = .error e) ∧ w' = w := by
  cases c <;> simp [World.execRow] at he
  · exact Or.inl ⟨rfl, he.1.symm, he.2.symm⟩
  · exact Or.inr ⟨by simp, ⟨_, he.1.symm⟩, he.2.symm⟩

theorem execRow_refresh {a : Except Exn Handle} (he : w.execRow (.refresh h) c = some (a, w')) :
    w' = w := by
  cases c <;> simp only [World.execRow] at he
  all_goals try (split at he)
  all_goals simp at he
  all_goals exact he.2.symm

end effect

/-! ### Calls running at once -/

/-- Any number of calls on one handle, while time passes. -/
abbrev updates (ws : WorkspaceId) (h : HandleId) : System RowApi where
  World := World
  Choice := Choice
  exec := World.execRow
  Origin := PayloadUpdate
  Out := Handle
  program := updateHandle ws h
  Env := Time
  env w d := some ({ w with clock := w.clock + d }, [])

/-- The payload of a handle. -/
def World.payload (w : World) (h : HandleId) : Payload :=
  ((w.handles.row h).map Handle.payload).getD {}

/-- What is known of a call: its update, and how far it has come. -/
structure CallNotes where
  update : PayloadUpdate
  phase : CallPhase Payload := .started

namespace updates

variable {ws : WorkspaceId} {h : HandleId}

/-- The calls before their first step. -/
def start (ws : WorkspaceId) (h : HandleId) (w : World) (calls : List PayloadUpdate) :
    (updates ws h).State := ⟨w, calls.map (updates ws h).spawn⟩

/-- The monitor of the calls. -/
def monitor (ws : WorkspaceId) (h : HandleId) : Monitor (updates ws h) CallNotes where
  start update := { update }
  observe n o a :=
    match o, a with
    | .get _ _, .ok row => { n with phase := .read row.payload }
    | .commit _ _, .ok _ => { n with phase := .written }
    | _, _ => n

/-- What a call does next. -/
def MayDo (ws : WorkspaceId) (h : HandleId) (n : CallNotes) : RowOp → Prop
  | .get ws' h' => ws' = ws ∧ h' = h ∧ n.phase = .started
  | .commit read update => read.handle = h ∧ n.phase = .read read.payload ∧ update = n.update
  | .refresh _ => True

/-- A call is given the row it asks for. -/
def Trusts (h : HandleId) (_ : CallNotes) : (o : RowOp) → Except Exn o.Ans → Prop
  | .get _ _, a => ∀ row, a = .ok row → row.handle = h
  | _, _ => True

theorem program_obeys (update : PayloadUpdate) :
    (updateHandle ws h update).Obeys ((monitor ws h).protocol (MayDo ws h) (Trusts h))
      ((monitor ws h).start update) fun _ _ => True := by
  unfold updateHandle
  rw [obeys_bind, obeys_perform]
  refine ⟨⟨rfl, rfl, rfl⟩, ?_⟩
  rintro (e | row) n ⟨hhandle, rfl⟩
  · trivial
  rw [afterBind_ok, obeys_bind, obeys_perform]
  refine ⟨⟨hhandle row rfl, rfl, rfl⟩, ?_⟩
  rintro (e | ⟨⟩) n ⟨-, rfl⟩
  · trivial
  · exact ⟨trivial, fun _ _ _ => trivial⟩

/-- The update of a call is its origin. -/
theorem note_update (t : (updates ws h).Thread) : ((monitor ws h).note t).update = t.origin := by
  unfold Monitor.note Monitor.after
  induction t.past with
  | nil => rfl
  | cons e past ih =>
    obtain ⟨o, a⟩ := e
    refine Eq.trans ?_ ih
    cases o <;> cases a <;> rfl

/-- The payload and the calls, as a shared record. -/
def asShared (s : (updates ws h).State) : Shared Payload ℕ where
  current := s.world.payload h
  phase i := (s.threads[i]?.map fun t => ((monitor ws h).note t).phase).getD .started

/-- The update of the call with this number. -/
def patch (calls : List PayloadUpdate) (i : ℕ) : PayloadUpdate := calls.getD i {}

/-- The system runs these calls, on a handle that exists. -/
structure Inv (calls : List PayloadUpdate) (p₀ : Payload) (s : (updates ws h).State) : Prop where
  origins : s.threads.map Thread.origin = calls
  row : (s.world.handles.row h).isSome
  known : Shared.Inv payloadFields (patch calls) p₀ (asShared s)

theorem asShared_phase_of {s : (updates ws h).State} {i : ℕ} {t : (updates ws h).Thread}
    (ht : s.threads[i]? = some t) : (asShared s).phase i = ((monitor ws h).note t).phase := by
  simp only [asShared, ht, Option.map_some, Option.getD_some]

theorem Inv.patch_eq {calls : List PayloadUpdate} {p₀ : Payload} {s : (updates ws h).State}
    (hs : Inv calls p₀ s) {i : ℕ} {t : (updates ws h).Thread} (ht : s.threads[i]? = some t) :
    patch calls i = t.origin := by
  rw [← hs.origins, patch, List.getD_eq_getElem?_getD, List.getElem?_map, ht]
  rfl

/-- What a step of a call does to its phase. -/
theorem asShared_phase_advance {s : (updates ws h).State} {i : ℕ} {t : (updates ws h).Thread}
    {o : RowOp} {a : Except Exn o.Ans} {k : Except Exn o.Ans → Prog RowApi Handle} {w : World}
    (ht : s.threads[i]? = some t) :
    (asShared (⟨w, s.threads.set i (t.advance o a k)⟩ : (updates ws h).State)).phase =
      Function.update (asShared s).phase i
        ((monitor ws h).observe ((monitor ws h).note t) o a).phase := by
  funext j
  have hlt : i < s.threads.length := (List.getElem?_eq_some_iff.1 ht).1
  by_cases hj : j = i
  · subst hj
    rw [Function.update_self]
    simp only [asShared, List.getElem?_set_self hlt, Option.map_some, Option.getD_some]
    rfl
  · rw [Function.update_of_ne hj]
    simp only [asShared, List.getElem?_set_ne (Ne.symm hj)]

/-- A step of a call that changes neither the payload nor its phase. -/
theorem asShared_eq_self {s : (updates ws h).State} {i : ℕ} {t : (updates ws h).Thread} {o : RowOp}
    {a : Except Exn o.Ans} {k : Except Exn o.Ans → Prog RowApi Handle}
    (ht : s.threads[i]? = some t)
    (hphase : ((monitor ws h).observe ((monitor ws h).note t) o a).phase =
      ((monitor ws h).note t).phase) :
    asShared (⟨s.world, s.threads.set i (t.advance o a k)⟩ : (updates ws h).State) = asShared s := by
  have hsame := asShared_phase_advance (a := a) (k := k) (w := s.world) ht
  rw [hphase, ← asShared_phase_of ht, Function.update_eq_self] at hsame
  exact congrArg (Shared.mk _) hsame

theorem origins_set {s : (updates ws h).State} {i : ℕ} {t : (updates ws h).Thread} {o : RowOp}
    {a : Except Exn o.Ans} {k : Except Exn o.Ans → Prog RowApi Handle}
    (ht : s.threads[i]? = some t) :
    (s.threads.set i (t.advance o a k)).map Thread.origin = s.threads.map Thread.origin := by
  obtain ⟨hlt, rfl⟩ := List.getElem?_eq_some_iff.1 ht
  rw [List.map_set]
  show (s.threads.map Thread.origin).set i (s.threads[i]).origin = _
  rw [← List.getElem_map Thread.origin (h := by simpa using hlt), List.set_getElem_self]

/-- A commit that changes what it has read finds the payload as it was read. -/
def FindsWhatItRead (h : HandleId) (w : World) : RowOp → Prop
  | .commit read update =>
      read.payload.merge update ≠ read.payload → w.payload h = read.payload
  | _ => True

instance (h : HandleId) (w : World) (o : RowOp) : Decidable (FindsWhatItRead h w o) :=
  match o with
  | .commit read update => inferInstanceAs (Decidable
      (read.payload.merge update ≠ read.payload → w.payload h = read.payload))
  | .get _ _ => inferInstanceAs (Decidable True)
  | .refresh _ => inferInstanceAs (Decidable True)

/-- Every commit that takes effect does so. -/
def CommitsWhatItRead (s : (updates ws h).State) :
    (updates ws h).Label → (updates ws h).State → Prop
  | .act i .ok, _ => ∀ o ∈ nextOp s i, FindsWhatItRead h s.world o
  | _, _ => True

instance (s : (updates ws h).State) (l : (updates ws h).Label) (s' : (updates ws h).State) :
    Decidable (CommitsWhatItRead s l s') := by
  unfold CommitsWhatItRead
  split <;> infer_instance

theorem commitsWhatItRead_of_op {s s' : (updates ws h).State} {i : ℕ} {c : Choice} {o : RowOp}
    (hop : nextOp s i = some o) (ho : c = .ok → FindsWhatItRead h s.world o) :
    CommitsWhatItRead s (.act i c) s' := by
  cases c with
  | ok =>
    intro o' hnext
    obtain rfl := Option.some.inj (hop.symm.trans hnext)
    exact ho rfl
  | _ => trivial

/-- What is in the record once a commit has taken effect. -/
theorem payload_commit {w : World} {read : Handle} {update : PayloadUpdate}
    (hrow : (w.handles.row read.handle).isSome) :
    World.payload { w with
        handles := w.handles.modify read.handle (Handle.committed w.clock read update) }
        read.handle =
      if read.payload.merge update = read.payload then w.payload read.handle
      else read.payload.merge update := by
  obtain ⟨row, hrow⟩ := Option.isSome_iff_exists.1 hrow
  have hhandle := HandleTable.row_handle hrow
  unfold World.payload
  dsimp only
  rw [HandleTable.row_modify fun row => Handle.committed_handle _ _ _ row, hrow]
  simp only [Option.map_some, Option.getD_some, hhandle, if_true]
  unfold Handle.committed
  split_ifs <;> rfl

/-- What is known of a step of a call: nothing of the record has changed, or the call has read
it or written to it, and the write is fresh exactly if the commit is. -/
theorem Inv.act {calls : List PayloadUpdate} {p₀ : Payload} {s : (updates ws h).State}
    (hs : Inv calls p₀ s) {i : ℕ} {t : (updates ws h).Thread} {o : RowOp}
    {k : Except Exn o.Ans → Prog RowApi Handle} {c : Choice} {a : Except Exn o.Ans} {w : World}
    (ht : s.threads[i]? = some t) (hr : t.rest = .act o k) (ho : MayDo ws h ((monitor ws h).note t) o)
    (he : s.world.execRow o c = some (a, w)) :
    let s' : (updates ws h).State := ⟨w, s.threads.set i (t.advance o a k)⟩
    Trusts h ((monitor ws h).note t) o a ∧ (w.handles.row h).isSome ∧
      (asShared s' = asShared s ∧ CommitsWhatItRead s (.act i c) s' ∨
        Shared.Step payloadFields (patch calls) (asShared s) (asShared s') ∧
          (CommitsWhatItRead s (.act i c) s' ↔
            Shared.Fresh payloadFields (patch calls) (asShared s) (asShared s'))) := by
  intro s'
  have hop : nextOp s i = some o := nextOp_eq ht hr
  have hphase := asShared_phase_of ht
  cases o with
  | get ws' h' =>
    obtain ⟨rfl, rfl, hstarted⟩ := ho
    obtain ⟨rfl, hrow⟩ := execRow_get he
    have hfresh : CommitsWhatItRead s (.act i c) s' :=
      commitsWhatItRead_of_op hop fun _ => trivial
    refine ⟨fun row ha => HandleTable.row_handle (hrow row ha), hs.row, ?_⟩
    cases a with
    | error e => exact Or.inl ⟨asShared_eq_self ht rfl, hfresh⟩
    | ok row =>
      have hread : asShared s' = ⟨(asShared s).current,
          Function.update (asShared s).phase i (CallPhase.read (asShared s).current)⟩ := by
        have hcurrent : (asShared s).current = row.payload := by
          simp only [asShared, World.payload, hrow row rfl, Option.map_some, Option.getD_some]
        rw [hcurrent, ← hcurrent]
        exact congrArg (Shared.mk _) ((asShared_phase_advance ht).trans (hcurrent ▸ rfl))
      have hstart : (asShared s).phase i = .started := hphase.trans hstarted
      refine Or.inr ⟨hread ▸ Shared.Step.read i hstart, iff_of_true hfresh ?_⟩
      rw [hread]
      intro j p hj hj' _
      rw [(Shared.written_read_iff hstart).1 hj'] at hj
      cases hj
  | commit read update =>
    obtain ⟨rfl, hread, rfl⟩ := ho
    have hp : (asShared s).phase i = .read read.payload := hphase.trans hread
    rcases execRow_commit he with ⟨rfl, rfl, rfl⟩ | ⟨hc, ⟨e, rfl⟩, rfl⟩
    · have hwrite : asShared s' = ⟨(asShared s).afterWrite payloadFields (patch calls) i
          read.payload, Function.update (asShared s).phase i .written⟩ := by
        refine congrArg₂ Shared.mk ?_ (asShared_phase_advance ht)
        rw [payload_commit hs.row]
        unfold Shared.afterWrite
        rw [hs.patch_eq ht, ← note_update t]
        rfl
      refine ⟨trivial, ?_, Or.inr ⟨hwrite ▸ Shared.Step.write i read.payload hp, ?_⟩⟩
      · show (HandleTable.row (HandleTable.modify _ _ _) _).isSome
        rw [HandleTable.row_modify fun row => Handle.committed_handle _ _ _ row,
          Option.isSome_map]
        exact hs.row
      · rw [hwrite]
        constructor
        · intro hcommit j q hj hj' hchanged
          rcases Shared.written_update_iff.1 hj' with rfl | hw
          · obtain rfl := CallPhase.read.inj (hp.symm.trans hj)
            rw [hs.patch_eq ht, ← note_update t] at hchanged
            exact hcommit _ hop hchanged
          · rw [hw] at hj
            cases hj
        · intro hfresh
          refine commitsWhatItRead_of_op hop fun _ hchanged => ?_
          refine hfresh i read.payload hp (Shared.written_update_iff.2 (Or.inl rfl)) ?_
          rw [hs.patch_eq ht, ← note_update t]
          exact hchanged
    · exact ⟨trivial, hs.row, Or.inl ⟨asShared_eq_self ht rfl,
        commitsWhatItRead_of_op hop fun hok => absurd hok hc⟩⟩
  | refresh h' =>
    obtain rfl := execRow_refresh he
    have hfresh : CommitsWhatItRead s (.act i c) s' :=
      commitsWhatItRead_of_op hop fun _ => trivial
    refine ⟨trivial, hs.row, Or.inl ⟨asShared_eq_self ht ?_, hfresh⟩⟩
    cases a <;> rfl

theorem patch_disjoint {calls : List PayloadUpdate} (hdisj : calls.Pairwise payloadFields.Disjoint)
    (i j : ℕ) (hij : i ≠ j) : payloadFields.Disjoint (patch calls i) (patch calls j) := by
  have hempty (k : PayloadKey) : ¬ payloadFields.Owns {} k := by cases k <;> exact fun h => h rfl
  have hlt {a b : ℕ} (hab : a < b) : payloadFields.Disjoint (patch calls a) (patch calls b) := by
    intro k ha hb
    unfold patch at ha hb
    rw [List.getD_eq_getElem?_getD] at ha hb
    by_cases hlen : b < calls.length
    · rw [List.getElem?_eq_getElem hlen] at hb
      rw [List.getElem?_eq_getElem (hab.trans hlen)] at ha
      exact List.pairwise_iff_getElem.1 hdisj a b (hab.trans hlen) hlen hab k ha hb
    · rw [List.getElem?_eq_none (not_lt.1 hlen)] at hb
      exact hempty k hb
  rcases lt_or_gt_of_ne hij with h | h
  · exact hlt h
  · exact fun k hi hj => hlt h k hj hi

theorem asShared_tick (s : (updates ws h).State) (d : Time) :
    asShared (⟨{ s.world with clock := s.world.clock + d },
      s.threads ++ ([] : List PayloadUpdate).map (updates ws h).spawn⟩ : (updates ws h).State) =
      asShared s := by
  unfold asShared
  rw [List.map_nil, List.append_nil]
  rfl

theorem asShared_start (w : World) (calls : List PayloadUpdate) :
    asShared (start ws h w calls) = Shared.start (w.payload h) := by
  refine congrArg (Shared.mk _) (funext fun i => ?_)
  simp only [start, List.getElem?_map]
  cases calls[i]? <;> rfl

/-- What the updates keep: the calls obey their protocol and the invariant holds. -/
theorem inv_of_reach {calls : List PayloadUpdate}
    (hdisj : calls.Pairwise payloadFields.Disjoint) {w : World} {row : Handle}
    (hrow : w.handles.lookup ws h = .ok row) {s : (updates ws h).State}
    (hreach : Reachable (start ws h w calls) s) :
    (monitor ws h).Conforms ((monitor ws h).protocol (MayDo ws h) (Trusts h)) (fun _ _ _ => True)
        s ∧ Inv calls (w.payload h) s := by
  refine Reach.invariant (fun u => program_obeys u) ?_ ?_ hreach ?_ ?_
  · intro s i t o k c a w hs ht hr ho he _
    obtain ⟨htrust, hsome, hstep⟩ := hs.act ht hr ho he
    refine ⟨htrust, (origins_set ht).trans hs.origins, hsome, ?_⟩
    rcases hstep with ⟨hsame, -⟩ | ⟨hstep, -⟩
    · rw [hsame]
      exact hs.known
    · exact hs.known.step (patch_disjoint hdisj) hstep
  · rintro s d w gs hs henv -
    obtain ⟨rfl, rfl⟩ := Prod.mk.inj (Option.some.inj henv)
    refine ⟨?_, hs.row, ?_⟩
    · rw [List.map_nil, List.append_nil]
      exact hs.origins
    · rw [asShared_tick]
      exact hs.known
  · refine ⟨?_, ?_, ?_⟩
    · simp [start, spawn, Function.comp_def]
    · simp [start, (HandleTable.lookup_eq_ok_iff.1 hrow).1]
    · rw [asShared_start]
      exact Shared.inv_start
  · intro t ht
    obtain ⟨u, -, rfl⟩ := List.mem_map.1 ht
    exact program_obeys u

/-- The payload holds every key as last written by the call that owns it. -/
def NoLostUpdate (s : (updates ws h).State) : Prop :=
  ∀ t ∈ s.threads, ((monitor ws h).note t).phase = .written →
    ∀ k v, t.origin.value k = some v → (s.world.payload h).value k = v

theorem noLostUpdate_iff_holds {calls : List PayloadUpdate} {p₀ : Payload}
    {s : (updates ws h).State} (hs : Inv calls p₀ s) :
    NoLostUpdate s ↔ Shared.Holds payloadFields (patch calls) (asShared s) := by
  constructor
  · intro hall i hi k v hk
    cases ht : s.threads[i]? with
    | none => simp [asShared, ht] at hi
    | some t =>
      rw [hs.patch_eq ht] at hk
      rw [asShared_phase_of ht] at hi
      exact hall t (List.mem_of_getElem? ht) hi k v hk
  · intro hall t hmem hwritten k v hk
    obtain ⟨i, ht⟩ := List.mem_iff_getElem?.1 hmem
    rw [← hs.patch_eq ht] at hk
    exact hall i ((asShared_phase_of ht).trans hwritten) k v hk

/-- A step loses nothing exactly if it satisfies the condition. -/
theorem noLostUpdate_step_iff {w : World} {row : Handle} {calls : List PayloadUpdate}
    (hrow : w.handles.lookup ws h = .ok row) (hdisj : calls.Pairwise payloadFields.Disjoint)
    {s u : (updates ws h).State} {l : (updates ws h).Label}
    (hreach : Reachable (start ws h w calls) s) (hstep : step s l = some u) :
    NoLostUpdate u ↔ NoLostUpdate s ∧ CommitsWhatItRead s l u := by
  obtain ⟨hconf, hs⟩ := inv_of_reach hdisj hrow hreach
  obtain ⟨-, hu⟩ := inv_of_reach hdisj hrow (hreach.tail l hstep trivial)
  rw [noLostUpdate_iff_holds hu, noLostUpdate_iff_holds hs]
  cases l with
  | act i c =>
    obtain ⟨t, o, k, a, w', ht, hr, he, rfl⟩ := step_act_eq_some.1 hstep
    obtain ⟨-, -, ⟨hsame, hfresh⟩ | ⟨hmove, hfresh⟩⟩ := hs.act ht hr (hconf.allowed ht hr) he
    · rw [hsame]
      exact ⟨fun hall => ⟨hall, hfresh⟩, fun hall => hall.1⟩
    · rw [hfresh]
      exact hmove.holds_iff (patch_disjoint hdisj) hs.known
  | env d =>
    obtain ⟨w', gs, henv, rfl⟩ := step_env_eq_some.1 hstep
    obtain ⟨rfl, rfl⟩ := Prod.mk.inj (Option.some.inj henv)
    rw [asShared_tick]
    exact ⟨fun hall => ⟨hall, trivial⟩, fun hall => hall.1⟩

theorem noLostUpdate_start (w : World) (calls : List PayloadUpdate) :
    NoLostUpdate (start ws h w calls) := by
  intro t ht hwritten
  obtain ⟨u, -, rfl⟩ := List.mem_map.1 ht
  cases hwritten

/-- In every run of calls whose updates own disjoint keys: nothing is lost exactly if every
commit that changes something finds the payload as it was read. -/
theorem noLostUpdate_iff {w : World} {row : Handle} {calls : List PayloadUpdate}
    (hrow : w.handles.lookup ws h = .ok row) (hdisj : calls.Pairwise payloadFields.Disjoint)
    {s : (updates ws h).State} (hreach : Reachable (start ws h w calls) s) :
    NoLostUpdate s ↔ Reach CommitsWhatItRead (start ws h w calls) s := by
  constructor
  · intro hall
    induction hreach with
    | refl => exact .refl
    | tail l hreach hstep _ ih =>
      obtain ⟨hall, hl⟩ := (noLostUpdate_step_iff hrow hdisj hreach hstep).1 hall
      exact (ih hall).tail l hstep hl
  · intro hrun
    clear hreach
    induction hrun with
    | refl => exact noLostUpdate_start w calls
    | tail l hrun hstep hl ih =>
      have hreach := hrun.mono fun _ _ _ _ => trivial
      exact (noLostUpdate_step_iff hrow hdisj hreach hstep).2 ⟨ih, hl⟩

/-! ### A pin and an expiry -/

/-- One result, ready and not pinned. -/
def oneReady : World :=
  { handles :=
      { rows := [{ handle := ⟨.obs, 0⟩, workspaceId := 0
                   payload :=
                     { status := some .ready
                       storageKey := some (.retrieval .harmony (.jobHandle ⟨.job, 1⟩) "a.nc")
                       sizeBytes := some 1 } }]
        next := 2 } }

/-- The update of `pin_result`, and that of an eviction. -/
def pinAndExpire : List PayloadUpdate :=
  [{ pinned := some true }, { status := some .expired, storageKey := some none }]

theorem pinAndExpire_disjoint : pinAndExpire.Pairwise payloadFields.Disjoint := by
  refine List.pairwise_pair.2 fun k hpin hexpire => ?_
  cases k <;> first | exact hpin rfl | exact hexpire rfl

theorem noLostUpdate_pinThenExpire : ∃ s : (updates 0 ⟨.obs, 0⟩).State,
    Reach CommitsWhatItRead (start 0 ⟨.obs, 0⟩ oneReady pinAndExpire) s ∧ NoLostUpdate s ∧
      (s.world.payload ⟨.obs, 0⟩).pinned = true ∧
        (s.world.payload ⟨.obs, 0⟩).status = some .expired := by
  obtain ⟨s, hs, hend⟩ := exists_reach (P := CommitsWhatItRead)
    (s := start 0 ⟨.obs, 0⟩ oneReady pinAndExpire)
    (p := fun s => (s.world.payload ⟨.obs, 0⟩).pinned ∧
      (s.world.payload ⟨.obs, 0⟩).status = some .expired)
    [.act 0 .ok, .act 0 .ok, .act 0 .ok, .act 1 .ok, .act 1 .ok, .act 1 .ok] (by decide)
  refine ⟨s, hs, ?_, of_decide_eq_true hend⟩
  exact (noLostUpdate_iff rfl pinAndExpire_disjoint (hs.mono fun _ _ _ _ => trivial)).2 hs

/-- The pin, which has read the result before it was evicted, makes it ready again: both calls
have ended, and the expiry is gone. -/
theorem not_noLostUpdate_expiryReverted : ∃ s : (updates 0 ⟨.obs, 0⟩).State,
    Reachable (start 0 ⟨.obs, 0⟩ oneReady pinAndExpire) s ∧
      (∀ i, nextOp s i = none) ∧ ¬ NoLostUpdate s := by
  obtain ⟨s, hs, hend⟩ := exists_reach (P := fun _ _ _ => True)
    (s := start 0 ⟨.obs, 0⟩ oneReady pinAndExpire)
    (p := fun s => s.threads.length = 2 ∧ nextOp s 0 = none ∧ nextOp s 1 = none ∧
      (s.threads[1]?.any fun t => decide (((monitor 0 ⟨.obs, 0⟩).note t).phase = .written ∧
        t.origin.value .status = some (some .expired))) ∧
      (s.world.payload ⟨.obs, 0⟩).value .status = some .ready)
    [.act 0 .ok, .act 1 .ok, .act 1 .ok, .act 0 .ok, .act 0 .ok, .act 1 .ok] (by decide)
  obtain ⟨hlen, h0, h1, hexpiry, hready⟩ := of_decide_eq_true hend
  refine ⟨s, hs, fun i => ?_, fun hall => ?_⟩
  · match i with
    | 0 => exact h0
    | 1 => exact h1
    | i + 2 => simp [nextOp, List.getElem?_eq_none (show s.threads.length ≤ i + 2 by omega)]
  · obtain ⟨t, ht, hexpired⟩ := (Option.any_eq_true _ _).1 hexpiry
    obtain ⟨hwritten, hexpired⟩ := of_decide_eq_true hexpired
    have hvalue := hall t (List.mem_of_getElem? ht) hwritten .status _ hexpired
    rw [hready] at hvalue
    cases hvalue

end updates

end EarthdataMcp
