import EarthdataMcp.Config

/-!
# The cache of token sessions

One session is kept for each token, for an hour at most, and for a bounded number of tokens: what
was used last is kept longest.

* `getTokenSession`, one call;
* `sessionsAfter`, what a sequence of calls has been handed, and the cache it leaves;
* `SessionsSafe`: the bound, and whose session a caller is handed;
* `sessionsSafe_of_calls`, for every sequence of calls on a clock that does not run backwards.
-/

namespace EarthdataMcp

/-! ### One call -/

/-- `_SESSION_CACHE_MAX`. -/
def sessionCacheMax : ℕ := 32

/-- `_SESSION_TTL_SECONDS`. -/
def sessionTtlSeconds : ℚ := 3600

/-- A session; its number tells it from the other ones that were ever constructed. -/
structure TokenSession where
  identity : Token
  number : ℕ
  deriving DecidableEq, Repr

/-- An entry of the cache: the digest of a token, a session, and when it was created. -/
structure SessionEntry where
  key : String
  session : TokenSession
  created : ℚ
  deriving DecidableEq, Repr

/-- The cache, from the entry used longest ago to the one used last, and how many sessions were
ever constructed. -/
structure SessionCache where
  entries : List SessionEntry := []
  constructed : ℕ := 0
  deriving DecidableEq, Repr

/-- `while len(_sessions) > _SESSION_CACHE_MAX: _sessions.popitem(last=False)`. -/
def dropOldest : List SessionEntry → List SessionEntry
  | [] => []
  | e :: entries =>
      if sessionCacheMax < (e :: entries).length then dropOldest entries else e :: entries

variable (cfg : Settings)

/-- The key of an identity, the digest of its token. -/
def sessionKey (identity : Token) : String := cfg.sha256Prefix 64 identity.text

/-- Construct a session for a key that is not in the cache. -/
def constructSession (identity : Token) (now : ℚ) (entries : List SessionEntry) (n : ℕ) :
    TokenSession × SessionCache :=
  let session : TokenSession := ⟨identity, n⟩
  (session, ⟨dropOldest (entries ++ [⟨sessionKey cfg identity, session, now⟩]), n + 1⟩)

/-- `get_token_session`. -/
def getTokenSession (identity : Token) (now : ℚ) (cache : SessionCache) :
    TokenSession × SessionCache :=
  let key := sessionKey cfg identity
  let others := cache.entries.filter fun e => e.key ≠ key
  match cache.entries.find? fun e => e.key = key with
  | some entry =>
      if now - entry.created < sessionTtlSeconds then
        -- move to the end
        (entry.session, { cache with entries := others ++ [entry] })
      else constructSession cfg identity now others cache.constructed
  | none => constructSession cfg identity now cache.entries cache.constructed

/-! ### Sequences of calls -/

/-- A call, the session it was handed, and whether that was constructed for it. -/
structure ServedCall where
  identity : Token
  now : ℚ
  session : TokenSession
  fresh : Bool
  deriving DecidableEq, Repr

/-- The calls that were served, newest first, and the cache after them. -/
structure SessionHistory where
  served : List ServedCall := []
  cache : SessionCache := {}
  deriving DecidableEq, Repr

/-- One more call. -/
def SessionHistory.call (h : SessionHistory) (identity : Token) (now : ℚ) : SessionHistory :=
  let (session, cache) := getTokenSession cfg identity now h.cache
  { served := ⟨identity, now, session, h.cache.constructed < cache.constructed⟩ :: h.served
    cache := cache }

/-- A sequence of calls, from an empty cache. -/
def sessionsAfter (calls : List (Token × ℚ)) : SessionHistory :=
  calls.foldl (fun h call => h.call cfg call.1 call.2) {}

/-- The session was constructed by this call, for the identity of the call. -/
structure ServedCall.Constructed (c : ServedCall) (session : TokenSession) : Prop where
  fresh : c.fresh = true
  session_eq : c.session = session
  identity_eq : c.identity = session.identity

/-- What holds after a sequence of calls. -/
structure SessionsSafe (h : SessionHistory) : Prop where
  bounded : h.cache.entries.length ≤ sessionCacheMax
  own : ∀ c ∈ h.served, c.session.identity.text = c.identity.text
  young : ∀ c ∈ h.served, ∃ c' ∈ h.served, c'.Constructed c.session ∧ c'.now ≤ c.now ∧
    c.now - c'.now < sessionTtlSeconds
  distinct : h.served.Pairwise fun c c' => c.fresh → c'.fresh → c.session ≠ c'.session

/-! ### What one call does -/

section call

variable {cfg} {identity : Token} {now : ℚ} {cache : SessionCache}

theorem length_dropOldest (entries : List SessionEntry) :
    (dropOldest entries).length ≤ sessionCacheMax := by
  induction entries with
  | nil => exact Nat.zero_le _
  | cons e entries ih =>
    unfold dropOldest
    split_ifs with hfull
    · exact ih
    · exact Nat.le_of_not_lt hfull

theorem mem_of_mem_dropOldest {e : SessionEntry} {entries : List SessionEntry}
    (h : e ∈ dropOldest entries) : e ∈ entries := by
  induction entries with
  | nil => exact h
  | cons e' entries ih =>
    unfold dropOldest at h
    split_ifs at h
    · exact List.mem_cons_of_mem _ (ih h)
    · exact h

/-- A call is handed a young session that is kept under its own key, or one that is constructed
for it. -/
theorem getTokenSession_cases (cfg : Settings) (identity : Token) (now : ℚ)
    (cache : SessionCache) :
    (∃ entry ∈ cache.entries, entry.key = sessionKey cfg identity ∧
        now - entry.created < sessionTtlSeconds ∧
        getTokenSession cfg identity now cache = (entry.session, { cache with
          entries := (cache.entries.filter fun e => e.key ≠ sessionKey cfg identity) ++ [entry] })) ∨
      ∃ entries, (∀ e ∈ entries, e ∈ cache.entries) ∧ getTokenSession cfg identity now cache =
        constructSession cfg identity now entries cache.constructed := by
  unfold getTokenSession
  dsimp only
  split
  · rename_i entry hfind
    have hkey : entry.key = sessionKey cfg identity := by simpa using List.find?_some hfind
    split_ifs with hyoung
    · exact Or.inl ⟨entry, List.mem_of_find?_eq_some hfind, hkey, hyoung, rfl⟩
    · exact Or.inr ⟨_, fun e he => List.mem_of_mem_filter he, rfl⟩
  · exact Or.inr ⟨_, fun e he => he, rfl⟩

end call

/-! ### What a sequence of calls does -/

section calls

variable {cfg} {h : SessionHistory} {identity : Token} {now : ℚ}

/-- What is known after a sequence of calls: an entry has the key of its session's identity, and
was created by one of the calls. -/
structure SessionsKept (cfg : Settings) (h : SessionHistory) : Prop extends SessionsSafe h where
  keyed : ∀ e ∈ h.cache.entries, e.key = sessionKey cfg e.session.identity ∧
    ∃ c ∈ h.served, c.Constructed e.session ∧ c.now = e.created
  numbered : ∀ c ∈ h.served, c.fresh → c.session.number < h.cache.constructed

theorem sessionsKept_empty : SessionsKept cfg {} where
  bounded := Nat.zero_le _
  own _ hc := absurd hc List.not_mem_nil
  young _ hc := absurd hc List.not_mem_nil
  distinct := List.Pairwise.nil
  keyed _ he := absurd he List.not_mem_nil
  numbered _ hc := absurd hc List.not_mem_nil

/-- A call that is handed a kept session. -/
theorem SessionsKept.hit (hkept : SessionsKept cfg h)
    (hhash : Function.Injective (cfg.sha256Prefix 64)) (hclock : ∀ c ∈ h.served, c.now ≤ now)
    {entry : SessionEntry} (hentry : entry ∈ h.cache.entries)
    (hkey : entry.key = sessionKey cfg identity) (hyoung : now - entry.created < sessionTtlSeconds) :
    SessionsKept cfg
      { served := ⟨identity, now, entry.session, false⟩ :: h.served
        cache := { h.cache with
          entries := (h.cache.entries.filter fun e => e.key ≠ sessionKey cfg identity) ++
            [entry] } } := by
  obtain ⟨hsession, c₀, hc₀, hconstructed, hcreated⟩ := hkept.keyed entry hentry
  have hmem : ∀ e ∈ (h.cache.entries.filter fun e => e.key ≠ sessionKey cfg identity) ++ [entry],
      e ∈ h.cache.entries := by
    intro e he
    rcases List.mem_append.1 he with he | he
    · exact List.mem_of_mem_filter he
    · rwa [List.mem_singleton.1 he]
  refine ⟨⟨?bounded, ?own, ?young, ?distinct⟩, ?keyed, ?numbered⟩
  case bounded =>
    have hfilter : (h.cache.entries.filter fun e => e.key ≠ sessionKey cfg identity).length <
        h.cache.entries.length := by
      rw [List.length_filter_lt_length_iff_exists]
      exact ⟨entry, hentry, by simpa using hkey⟩
    have hbounded := hkept.bounded
    show (_ ++ [entry]).length ≤ _
    rw [List.length_append, List.length_singleton]
    omega
  case own =>
    refine List.forall_mem_cons.2 ⟨?_, hkept.own⟩
    exact hhash (hsession.symm.trans hkey)
  case young =>
    refine List.forall_mem_cons.2 ⟨?_, fun c hc => ?_⟩
    · refine ⟨c₀, List.mem_cons_of_mem _ hc₀, hconstructed, hclock c₀ hc₀, ?_⟩
      rw [hcreated]
      exact hyoung
    · obtain ⟨c', hc', hc⟩ := hkept.young c hc
      exact ⟨c', List.mem_cons_of_mem _ hc', hc⟩
  case distinct =>
    exact List.Pairwise.cons (fun c _ hfresh => by cases hfresh) hkept.distinct
  case keyed =>
    intro e he
    obtain ⟨hkeyed, c, hc, hcreation⟩ := hkept.keyed e (hmem e he)
    exact ⟨hkeyed, c, List.mem_cons_of_mem _ hc, hcreation⟩
  case numbered =>
    exact List.forall_mem_cons.2 ⟨fun hfresh => (by cases hfresh), hkept.numbered⟩

/-- A call that a session is constructed for. -/
theorem SessionsKept.construct (hkept : SessionsKept cfg h) {entries : List SessionEntry}
    (hentries : ∀ e ∈ entries, e ∈ h.cache.entries) :
    SessionsKept cfg
      { served := ⟨identity, now, ⟨identity, h.cache.constructed⟩, true⟩ :: h.served
        cache := (constructSession cfg identity now entries h.cache.constructed).2 } := by
  have hnew : ServedCall.Constructed ⟨identity, now, ⟨identity, h.cache.constructed⟩, true⟩
      ⟨identity, h.cache.constructed⟩ := ⟨rfl, rfl, rfl⟩
  refine ⟨⟨?bounded, ?own, ?young, ?distinct⟩, ?keyed, ?numbered⟩
  case bounded => exact length_dropOldest _
  case own => exact List.forall_mem_cons.2 ⟨rfl, hkept.own⟩
  case young =>
    refine List.forall_mem_cons.2 ⟨⟨_, List.mem_cons_self, hnew, le_rfl, ?_⟩, fun c hc => ?_⟩
    · rw [sub_self]
      exact by norm_num [sessionTtlSeconds]
    · obtain ⟨c', hc', hc⟩ := hkept.young c hc
      exact ⟨c', List.mem_cons_of_mem _ hc', hc⟩
  case distinct =>
    refine List.Pairwise.cons (fun c hc _ hfresh heq => ?_) hkept.distinct
    have hlt := hkept.numbered c hc hfresh
    rw [← heq] at hlt
    exact lt_irrefl _ hlt
  case keyed =>
    intro e he
    rcases List.mem_append.1 (mem_of_mem_dropOldest he) with he | he
    · obtain ⟨hkeyed, c, hc, hcreation⟩ := hkept.keyed e (hentries e he)
      exact ⟨hkeyed, c, List.mem_cons_of_mem _ hc, hcreation⟩
    · obtain rfl := List.mem_singleton.1 he
      exact ⟨rfl, _, List.mem_cons_self, hnew, rfl⟩
  case numbered =>
    refine List.forall_mem_cons.2 ⟨fun _ => Nat.lt_succ_self _, fun c hc hfresh => ?_⟩
    exact Nat.lt_succ_of_lt (hkept.numbered c hc hfresh)

/-- One more call, at a time that is not earlier than that of any other one. -/
theorem SessionsKept.call (hkept : SessionsKept cfg h)
    (hhash : Function.Injective (cfg.sha256Prefix 64)) (hclock : ∀ c ∈ h.served, c.now ≤ now) :
    SessionsKept cfg (h.call cfg identity now) := by
  unfold SessionHistory.call
  rcases getTokenSession_cases cfg identity now h.cache with
    ⟨entry, hentry, hkey, hyoung, heq⟩ | ⟨entries, hentries, heq⟩
  · rw [heq]
    have hhit := hkept.hit hhash hclock hentry hkey hyoung
    simpa using hhit
  · rw [heq]
    have hconstruct := @SessionsKept.construct cfg h identity now hkept entries hentries
    simpa [constructSession] using hconstruct

theorem now_of_mem_sessionsAfter {calls : List (Token × ℚ)} {c : ServedCall}
    (hc : c ∈ (sessionsAfter cfg calls).served) : (c.identity, c.now) ∈ calls := by
  induction calls using List.reverseRecOn with
  | nil => cases hc
  | append_singleton calls call ih =>
    unfold sessionsAfter at hc
    rw [List.foldl_append] at hc
    rcases List.mem_cons.1 hc with rfl | hc
    · exact List.mem_append_right _ List.mem_cons_self
    · exact List.mem_append_left _ (ih hc)

/-- On a clock that does not run backwards, the cache keeps its bound after every call, and every
caller is handed a young session that was constructed for its own token. -/
theorem sessionsSafe_of_calls (hhash : Function.Injective (cfg.sha256Prefix 64))
    {calls : List (Token × ℚ)} (hclock : calls.Pairwise fun a b => a.2 ≤ b.2) :
    SessionsSafe (sessionsAfter cfg calls) := by
  suffices hkept : SessionsKept cfg (sessionsAfter cfg calls) from hkept.toSessionsSafe
  induction calls using List.reverseRecOn with
  | nil => exact sessionsKept_empty
  | append_singleton calls call ih =>
    obtain ⟨hearlier, -, hlast⟩ := List.pairwise_append.1 hclock
    have hstep : sessionsAfter cfg (calls ++ [call]) =
        (sessionsAfter cfg calls).call cfg call.1 call.2 := List.foldl_append
    rw [hstep]
    refine (ih hearlier).call hhash fun c hc => ?_
    exact hlast _ (now_of_mem_sessionsAfter hc) call List.mem_cons_self

end calls

/-- Two callers take turns, until the session of the first one is an hour old. -/
theorem sessionsSafe_of_calls_turns :
    let calls : List (Token × ℚ) := [(⟨"a", true, none, none⟩, 0), (⟨"b", true, none, none⟩, 10),
      (⟨"a", true, none, none⟩, 20), (⟨"a", true, none, none⟩, 3600)]
    (sessionsAfter {} calls).served.map (fun c => (c.session.number, c.fresh)) =
        [(2, true), (0, false), (1, true), (0, true)] ∧
      SessionsSafe (sessionsAfter {} calls) := by
  refine ⟨by decide +kernel, sessionsSafe_of_calls (fun _ _ h => h) ?_⟩
  decide +kernel

end EarthdataMcp
