import Geofence.Presence.Cache
import Mathlib.Data.List.Infix
/-!
# How stale a hit can be

A value in Redis is the unlocked read of one request that found nothing there, so it was the
committed presence at a moment of that request. It is served until its TTL has passed since Redis
carried the SET out, which may be after the request has given it up and returned, and nothing but
another such request renews it.
-/

namespace Geofence

open Framework

namespace PresenceCache

/-- What becomes of the value a request is about to store: it has none, or the one it had, or its
unlocked read after a miss. -/
inductive Moved (now : Nat) (presence : List AreaId) (request next : CachedRequest) : Prop where
  | idle (h : next.toStore = none)
  | read (hmiss : next.cacheRead = some .miss) (h : next.phase = .populating presence)
  | gaveUp (hint : List AreaId) (hphase : request.phase = .populating hint)
      (h : next = { request with phase := .abandoned now hint, gaveUp := true })

/-- Everything a step can do: a request that has not ended takes its next step, and keys are
dropped but by a store never made. -/
inductive CacheStep (setting : CacheSetting) (st : PresenceCache) :
    CacheAction → PresenceCache → Prop where
  | ticked : CacheStep setting st .tick { st with now := st.now + 1 }
  | reported (call : ReportCall) :
    CacheStep setting st (.report call)
      { st with requests := st.requests ++ [⟨call, st.now, none, .getting, false⟩] }
  | outside (action : CacheAction) (db : Database) (redis : UserId → Option CacheEntry)
      (hredis : ∀ userId entry, redis userId = some entry → st.redis userId = some entry) :
    CacheStep setting st action { st with db, redis }
  | moved (action : CacheAction) (i : Nat) (request next : CachedRequest) (db : Database)
      (redis : UserId → Option CacheEntry) (hrequest : st.requests[i]? = some request)
      (hopen : ∀ endedAt, request.phase ≠ .ended endedAt)
      (hcall : next.call = request.call) (hstarted : next.startedAt = request.startedAt)
      (hmoved : Moved st.now (st.presenceOf request.userId) request next)
      (hredis : ∀ userId entry, redis userId = some entry → st.redis userId = some entry) :
    CacheStep setting st action ⟨st.now, db, redis, st.requests.set i next⟩
  | stored (i : Nat) (request : CachedRequest) (hint : List AreaId) (endedAt : Nat)
      (hrequest : st.requests[i]? = some request) (htoStore : request.toStore = some hint)
      (hwaited : request.phase = .populating hint ∧ endedAt = st.now ∨
        request.phase = .abandoned endedAt hint) :
    CacheStep setting st (.set i true)
      ((st.setKey request.userId (some ⟨hint, st.now + setting.ttl hint, i⟩)).setRequest i
        (request.goto (.ended endedAt)))

section Cases

variable {setting : CacheSetting} {st t : PresenceCache}

private theorem setKey_none (st : PresenceCache) (userId : UserId) (other : UserId)
    (entry : CacheEntry) (h : (st.setKey userId none).redis other = some entry) :
    st.redis other = some entry := by
  change Function.update st.redis userId none other = some entry at h
  by_cases hother : other = userId
  · rw [hother, Function.update_self] at h
    cases h
  · rwa [Function.update_of_ne hother] at h

private theorem moves (action : CacheAction) {i : Nat} {request : CachedRequest}
    (next : CachedRequest) (hrequest : st.requests[i]? = some request)
    (hopen : ∀ endedAt, request.phase ≠ .ended endedAt) (hcall : next.call = request.call)
    (hstarted : next.startedAt = request.startedAt) (hidle : next.toStore = none)
    (db : Database) {redis : UserId → Option CacheEntry}
    (hredis : ∀ userId entry, redis userId = some entry → st.redis userId = some entry) :
    CacheStep setting st action ⟨st.now, db, redis, st.requests.set i next⟩ :=
  .moved action i request next db redis hrequest hopen hcall hstarted (.idle hidle) hredis

private theorem ends (action : CacheAction) {i : Nat} {request : CachedRequest}
    (hrequest : st.requests[i]? = some request)
    (hopen : ∀ endedAt, request.phase ≠ .ended endedAt) (db : Database) (endedAt : Nat) :
    CacheStep setting st action ({ st with db }.setRequest i (request.goto (.ended endedAt))) :=
  moves action (request.goto (.ended endedAt)) hrequest hopen rfl rfl rfl db fun _ _ h => h

private theorem answerGet_call (st : PresenceCache) (request : CachedRequest) (fails : Bool) :
    (st.answerGet request fails).call = request.call ∧
      (st.answerGet request fails).startedAt = request.startedAt := by
  unfold answerGet
  split
  · exact ⟨rfl, rfl⟩
  · split
    · exact ⟨rfl, rfl⟩
    · exact ⟨rfl, rfl⟩

private theorem fork_toStore {request : CachedRequest} {hint : List AreaId} (now : Nat)
    (hmiss : request.cacheRead ≠ some .miss) : (request.fork hint now).toStore = none := by
  unfold CachedRequest.fork CachedRequest.goto
  rw [if_neg hmiss]
  split
  · rfl
  · rfl

private theorem answerGet_toStore (st : PresenceCache) (request : CachedRequest) (fails : Bool) :
    (st.answerGet request fails).toStore = none := by
  unfold answerGet
  split
  · rfl
  · split
    · exact fork_toStore st.now (by simp)
    · rfl

private theorem answerGet_hit {request : CachedRequest} {fails : Bool} {areaIds : List AreaId}
    (h : (st.answerGet request fails).cacheRead = some (.hit areaIds)) :
    st.get? request.userId = some areaIds := by
  unfold answerGet at h
  split at h
  · cases h
  · split at h
    · rename_i answer hhit
      cases h
      exact hhit
    · cases h

private theorem step_get {i : Nat} {fails : Bool} {request : CachedRequest}
    (hrequest : st.requests[i]? = some request)
    (h : st.stepRequest setting i request (.get i fails) = some t) :
    CacheStep setting st (.get i fails) t := by
  simp only [stepRequest] at h
  split at h
  · rename_i hphase
    cases h
    obtain ⟨hcall, hstarted⟩ := answerGet_call st request fails
    exact moves _ _ hrequest (by simp [hphase]) hcall hstarted (answerGet_toStore st request fails)
      st.db fun _ _ h => h
  · cases h

private theorem step_readUnlocked {i : Nat} {error : Option PgError} {request : CachedRequest}
    (hrequest : st.requests[i]? = some request)
    (h : st.stepRequest setting i request (.readUnlocked i error) = some t) :
    CacheStep setting st (.readUnlocked i error) t := by
  simp only [stepRequest] at h
  split at h
  · rename_i e hphase
    cases h
    exact ends _ hrequest (by simp [hphase]) st.db st.now
  · rename_i hphase
    cases h
    have hopen : ∀ endedAt, request.phase ≠ .ended endedAt := by simp [hphase]
    refine .moved _ i request (request.fork _ st.now) st.db st.redis hrequest hopen rfl rfl ?_
      fun _ _ h => h
    by_cases hmiss : request.cacheRead = some .miss
    · by_cases hdiff : differs request.call.currentAreaIds (st.presenceOf request.userId) = true
      · exact .idle (by simp [CachedRequest.fork, CachedRequest.goto, CachedRequest.toStore, hdiff])
      · exact .read hmiss (by simp [CachedRequest.fork, CachedRequest.goto, hdiff, hmiss])
    · exact .idle (fork_toStore st.now hmiss)
  · cases h

private theorem populates {i : Nat} {carriedOut : Bool} {request : CachedRequest}
    {hint : List AreaId} {endedAt : Nat} (hrequest : st.requests[i]? = some request)
    (htoStore : request.toStore = some hint)
    (hwaited : request.phase = .populating hint ∧ endedAt = st.now ∨
      request.phase = .abandoned endedAt hint) :
    CacheStep setting st (.set i carriedOut)
      ((st.populate setting i request.userId hint carriedOut).setRequest i
        (request.goto (.ended endedAt))) := by
  unfold populate
  split
  · rename_i hstores
    rw [Bool.and_eq_true] at hstores
    rw [hstores.1]
    exact .stored i request hint endedAt hrequest htoStore hwaited
  · refine ends _ hrequest (fun ended heq => ?_) st.db endedAt
    rcases hwaited with ⟨hphase, -⟩ | hphase
    · rw [hphase] at heq
      cases heq
    · rw [hphase] at heq
      cases heq

private theorem step_set {i : Nat} {carriedOut : Bool} {request : CachedRequest}
    (hrequest : st.requests[i]? = some request)
    (h : st.stepRequest setting i request (.set i carriedOut) = some t) :
    CacheStep setting st (.set i carriedOut) t := by
  simp only [stepRequest] at h
  split at h
  · rename_i hint hphase
    cases h
    exact populates hrequest (by simp [CachedRequest.toStore, hphase]) (Or.inl ⟨hphase, rfl⟩)
  · rename_i endedAt hint hphase
    cases h
    exact populates hrequest (by simp [CachedRequest.toStore, hphase]) (Or.inr hphase)
  · cases h

private theorem step_giveUp {i : Nat} {request : CachedRequest}
    (hrequest : st.requests[i]? = some request)
    (h : st.stepRequest setting i request (.giveUp i) = some t) :
    CacheStep setting st (.giveUp i) t := by
  simp only [stepRequest] at h
  split at h
  · rename_i hint hphase
    cases h
    exact .moved _ i request _ st.db st.redis hrequest (by simp [hphase]) rfl rfl
      (.gaveUp hint hphase rfl) fun _ _ h => h
  · cases h

private theorem step_commit {i : Nat} {answered : Bool} {request : CachedRequest}
    (hrequest : st.requests[i]? = some request)
    (h : st.stepRequest setting i request (.commit i answered) = some t) :
    CacheStep setting st (.commit i answered) t := by
  simp only [stepRequest] at h
  split at h
  · rename_i hphase
    have hopen : ∀ endedAt, request.phase ≠ .ended endedAt := by simp [hphase]
    split at h
    · cases h
      exact ends _ hrequest hopen st.db st.now
    · rename_i db result htx
      cases h
      cases answered with
      | false => exact ends _ hrequest hopen db st.now
      | true =>
        exact moves _ (request.goto .invalidating) hrequest hopen rfl rfl rfl db
          fun _ _ h => h
  · cases h

private theorem step_del {i : Nat} {carriedOut : Bool} {request : CachedRequest}
    (hrequest : st.requests[i]? = some request)
    (h : st.stepRequest setting i request (.del i carriedOut) = some t) :
    CacheStep setting st (.del i carriedOut) t := by
  simp only [stepRequest] at h
  split at h
  · rename_i hphase
    have hopen : ∀ endedAt, request.phase ≠ .ended endedAt := by simp [hphase]
    cases h
    cases carriedOut with
    | false => exact ends _ hrequest hopen st.db st.now
    | true =>
      exact moves _ (request.goto (.ended st.now)) hrequest hopen rfl rfl rfl st.db
        (setKey_none st request.userId)
  · cases h

theorem step_cases {action : CacheAction} (h : step setting st action = some t) :
    CacheStep setting st action t := by
  cases action with
  | tick =>
    cases h
    exact .ticked
  | report call =>
    cases h
    exact .reported call
  | elsewhere presence =>
    cases h
    exact .outside _ _ st.redis fun _ _ h => h
  | createArea row =>
    obtain ⟨db, hdb, rfl⟩ := Option.map_eq_some_iff.mp h
    exact .outside _ db st.redis fun _ _ h => h
  | evict userId =>
    cases h
    exact .outside _ st.db _ (setKey_none st userId)
  | get i fails =>
    obtain ⟨request, hrequest, hstep⟩ := Option.bind_eq_some_iff.mp h
    exact step_get hrequest hstep
  | readUnlocked i error =>
    obtain ⟨request, hrequest, hstep⟩ := Option.bind_eq_some_iff.mp h
    exact step_readUnlocked hrequest hstep
  | set i carriedOut =>
    obtain ⟨request, hrequest, hstep⟩ := Option.bind_eq_some_iff.mp h
    exact step_set hrequest hstep
  | giveUp i =>
    obtain ⟨request, hrequest, hstep⟩ := Option.bind_eq_some_iff.mp h
    exact step_giveUp hrequest hstep
  | commit i answered =>
    obtain ⟨request, hrequest, hstep⟩ := Option.bind_eq_some_iff.mp h
    exact step_commit hrequest hstep
  | rollBack i =>
    obtain ⟨request, hrequest, hstep⟩ := Option.bind_eq_some_iff.mp h
    simp only [stepRequest] at hstep
    split at hstep
    · rename_i hphase
      cases hstep
      exact ends _ hrequest (by simp [hphase]) st.db st.now
    · cases hstep
  | del i carriedOut =>
    obtain ⟨request, hrequest, hstep⟩ := Option.bind_eq_some_iff.mp h
    exact step_del hrequest hstep

end Cases

section Invariant

variable {setting : CacheSetting} {db : Database}

/-- The committed presence of the user was `areaIds` in a state of the run, at `since` or
later. -/
def Committed (setting : CacheSetting) (db : Database) (actions : List CacheAction)
    (userId : UserId) (areaIds : List AreaId) (since : Nat) : Prop :=
  ∃ before u, before <+: actions ∧ (machine setting).run (start db) before = some u ∧
    u.presenceOf userId = areaIds ∧ since ≤ u.now

theorem Committed.append {actions : List CacheAction} {userId : UserId} {areaIds : List AreaId}
    {since : Nat} (h : Committed setting db actions userId areaIds since)
    (action : CacheAction) :
    Committed setting db (actions ++ [action]) userId areaIds since := by
  obtain ⟨before, u, hbefore, hrun, hpresence, hsince⟩ := h
  exact ⟨before, u, hbefore.trans (List.prefix_append actions [action]), hrun, hpresence, hsince⟩

/-- A value about to be stored is what its request read, after a miss. -/
structure RequestSound (setting : CacheSetting) (db : Database) (actions : List CacheAction)
    (now : Nat) (request : CachedRequest) : Prop where
  started : request.startedAt ≤ now
  toStore : ∀ hint, request.toStore = some hint → request.cacheRead = some .miss ∧
    Committed setting db actions request.userId hint request.startedAt
  abandoned : ∀ endedAt hint, request.phase = .abandoned endedAt hint → request.gaveUp = true

/-- A stored value is what the request that stored it had read, and its TTL runs from the SET, at
which the request ended unless it had given the SET up. -/
def EntrySound (setting : CacheSetting) (db : Database) (actions : List CacheAction)
    (requests : List CachedRequest) (userId : UserId) (entry : CacheEntry) : Prop :=
  ∃ request endedAt storedAt, requests[entry.storedBy]? = some request ∧
    request.userId = userId ∧ request.phase = .ended endedAt ∧
    (request.gaveUp = false → endedAt = storedAt) ∧ request.startedAt ≤ storedAt ∧
    entry.expiresAt = storedAt + setting.ttl entry.areaIds ∧
    Committed setting db actions userId entry.areaIds request.startedAt

structure CacheSound (setting : CacheSetting) (db : Database) (actions : List CacheAction)
    (st : PresenceCache) : Prop where
  requests : ∀ request ∈ st.requests, RequestSound setting db actions st.now request
  entries : ∀ userId entry, st.redis userId = some entry →
    EntrySound setting db actions st.requests userId entry

private theorem cacheSound_start : CacheSound setting db [] (start db) where
  requests := by
    intro request hmem
    cases hmem
  entries := by
    intro userId entry hentry
    cases hentry

theorem RequestSound.later {actions : List CacheAction} {now : Nat} {request : CachedRequest}
    (h : RequestSound setting db actions now request) (action : CacheAction) {later : Nat}
    (hlater : now ≤ later) : RequestSound setting db (actions ++ [action]) later request where
  started := h.started.trans hlater
  toStore := by
    intro hint htoStore
    obtain ⟨hmiss, hcommitted⟩ := h.toStore hint htoStore
    exact ⟨hmiss, hcommitted.append action⟩
  abandoned := h.abandoned

def KeepsEnded (requests later : List CachedRequest) : Prop :=
  ∀ (i : Nat) (request : CachedRequest) (endedAt : Nat), requests[i]? = some request →
    request.phase = .ended endedAt → later[i]? = some request

theorem EntrySound.later {actions : List CacheAction} {requests later : List CachedRequest}
    {userId : UserId} {entry : CacheEntry}
    (h : EntrySound setting db actions requests userId entry) (action : CacheAction)
    (hended : KeepsEnded requests later) :
    EntrySound setting db (actions ++ [action]) later userId entry := by
  obtain ⟨request, endedAt, storedAt, hrequest, huser, hphase, hwaited, hstarted, hexpires,
    hcommitted⟩ := h
  exact ⟨request, endedAt, storedAt, hended _ _ _ hrequest hphase, huser, hphase, hwaited, hstarted,
    hexpires, hcommitted.append action⟩

private theorem keepsEnded_set {requests : List CachedRequest} {i : Nat}
    {request next : CachedRequest} (hrequest : requests[i]? = some request)
    (hopen : ∀ endedAt, request.phase ≠ .ended endedAt) :
    KeepsEnded requests (requests.set i next) := by
  intro j other endedAt hother hphase
  have hne : i ≠ j := by
    intro heq
    subst heq
    rw [hrequest] at hother
    cases hother
    exact hopen endedAt hphase
  rw [List.getElem?_set_ne hne]
  exact hother

private theorem Moved.requestSound {actions : List CacheAction} {now : Nat} {action : CacheAction}
    {presence : List AreaId} {request next : CachedRequest}
    (h : Moved now presence request next) (hsound : RequestSound setting db actions now request)
    (hstarted : next.startedAt ≤ now)
    (hpresent : Committed setting db (actions ++ [action]) next.userId presence next.startedAt) :
    RequestSound setting db (actions ++ [action]) now next := by
  cases h with
  | idle hnone =>
    refine ⟨hstarted, fun hint htoStore => ?_, fun endedAt hint hphase => ?_⟩
    · rw [hnone] at htoStore
      cases htoStore
    · simp [CachedRequest.toStore, hphase] at hnone
  | read hmiss hphase =>
    refine ⟨hstarted, fun hint htoStore => ?_, fun endedAt hint habandoned => ?_⟩
    · simp only [CachedRequest.toStore, hphase, Option.some.injEq] at htoStore
      subst htoStore
      exact ⟨hmiss, hpresent⟩
    · rw [hphase] at habandoned
      cases habandoned
  | gaveUp hint hphase hnext =>
    subst hnext
    have hstored : request.toStore = some hint := by simp [CachedRequest.toStore, hphase]
    obtain ⟨hmiss, hcommitted⟩ := hsound.toStore hint hstored
    refine ⟨hstarted, fun other htoStore => ?_, fun _ _ _ => rfl⟩
    cases htoStore
    exact ⟨hmiss, hcommitted.append action⟩

/-- The invariant over the schedule so far, kept by every step. -/
theorem CacheSound.step {actions : List CacheAction} {st t : PresenceCache} {action : CacheAction}
    (hrun : (machine setting).run (start db) actions = some st)
    (h : CacheSound setting db actions st) (hstep : PresenceCache.step setting st action = some t) :
    CacheSound setting db (actions ++ [action]) t := by
  have hpresent : ∀ userId since, since ≤ st.now →
      Committed setting db (actions ++ [action]) userId (st.presenceOf userId) since :=
    fun userId since hsince =>
      ⟨actions, st, List.prefix_append actions [action], hrun, rfl, hsince⟩
  cases step_cases hstep with
  | ticked =>
    refine ⟨fun request hmem => ?_, fun userId entry hentry => ?_⟩
    · exact (h.requests request hmem).later _ (Nat.le_succ st.now)
    · exact (h.entries userId entry hentry).later _ fun _ _ _ hrequest _ => hrequest
  | reported call =>
    refine ⟨fun request hmem => ?_, fun userId entry hentry => ?_⟩
    · rcases List.mem_append.mp hmem with hmem | hmem
      · exact (h.requests request hmem).later _ le_rfl
      · rw [List.mem_singleton] at hmem
        subst hmem
        refine ⟨le_rfl, fun hint htoStore => ?_, fun endedAt hint hphase => ?_⟩
        · cases htoStore
        · cases hphase
    · apply (h.entries userId entry hentry).later
      intro i request endedAt hrequest hphase
      rw [List.getElem?_append_left (List.getElem?_eq_some_iff.mp hrequest).1]
      exact hrequest
  | outside _ db' redis hredis =>
    refine ⟨fun request hmem => ?_, fun userId entry hentry => ?_⟩
    · exact (h.requests request hmem).later _ le_rfl
    · exact (h.entries userId entry (hredis userId entry hentry)).later _
        fun _ _ _ hrequest _ => hrequest
  | moved _ i request next db' redis hrequest hopen hcall hstarted hmoved hredis =>
    have hsound := h.requests request (List.mem_of_getElem? hrequest)
    have huser : next.userId = request.userId := by
      unfold CachedRequest.userId
      rw [hcall]
    have hbegan : next.startedAt ≤ st.now := by
      rw [hstarted]
      exact hsound.started
    refine ⟨fun other hmem => ?_, fun userId entry hentry => ?_⟩
    · rcases List.mem_or_eq_of_mem_set hmem with hmem | hnext
      · exact (h.requests other hmem).later _ le_rfl
      · rw [hnext]
        exact hmoved.requestSound hsound hbegan
          (huser ▸ hpresent request.userId next.startedAt hbegan)
    · exact (h.entries userId entry (hredis userId entry hentry)).later _
        (keepsEnded_set hrequest hopen)
  | stored i request hint endedAt hrequest htoStore hwaited =>
    have hsound := h.requests request (List.mem_of_getElem? hrequest)
    have hopen : ∀ ended, request.phase ≠ .ended ended := by
      intro ended heq
      simp [CachedRequest.toStore, heq] at htoStore
    refine ⟨fun other hmem => ?_, fun userId entry hentry => ?_⟩
    · rcases List.mem_or_eq_of_mem_set hmem with hmem | hnext
      · exact (h.requests other hmem).later _ le_rfl
      · subst hnext
        refine ⟨hsound.started, fun other hother => ?_, fun ended other hother => ?_⟩
        · cases hother
        · cases hother
    · change Function.update st.redis request.userId _ userId = some entry at hentry
      by_cases huser : userId = request.userId
      · subst huser
        rw [Function.update_self] at hentry
        cases hentry
        have hlt : i < st.requests.length := (List.getElem?_eq_some_iff.mp hrequest).1
        refine ⟨request.goto (.ended endedAt), endedAt, st.now, List.getElem?_set_self hlt, rfl, rfl,
          ?_, hsound.started, rfl, (hsound.toStore hint htoStore).2.append _⟩
        intro hgaveUp
        rcases hwaited with ⟨-, hended⟩ | habandoned
        · exact hended
        · have htrue := hsound.abandoned endedAt hint habandoned
          rw [CachedRequest.goto] at hgaveUp
          rw [htrue] at hgaveUp
          cases hgaveUp
      · rw [Function.update_of_ne huser] at hentry
        exact (h.entries userId entry hentry).later _ (keepsEnded_set hrequest hopen)

theorem cacheSound_run {actions : List CacheAction} {st : PresenceCache}
    (hrun : (machine setting).run (start db) actions = some st) :
    CacheSound setting db actions st := by
  apply (machine setting).run_trace_invariant cacheSound_start _ hrun
  intro before u action v hu hsound hstep
  exact hsound.step hu hstep

end Invariant

section Contract

variable {setting : CacheSetting} {db : Database}

/-- What a GET answers and what a step leaves in Redis, in the state `st` that `actions` lead to.
A hit was the committed presence of the user at most the TTL of the value, and the time from the
start of its storer to the SET, before the present; that time is the duration of a storer that did
not give the SET up. A value that a step leaves under a key was there before, with its expiry, or
is the unlocked read of a request that missed. -/
structure BoundedStaleness (setting : CacheSetting) (db : Database) (actions : List CacheAction)
    (st : PresenceCache) : Prop where
  hits : ∀ i fails t request areaIds, step setting st (.get i fails) = some t →
    t.requests[i]? = some request → request.cacheRead = some (.hit areaIds) →
    ∃ entry storer before u, st.redis request.userId = some entry ∧
      st.requests[entry.storedBy]? = some storer ∧ before <+: actions ∧
      (machine setting).run (start db) before = some u ∧
      u.presenceOf request.userId = areaIds ∧
      st.now ≤ u.now + setting.ttl areaIds + (entry.storedAt setting - storer.startedAt) ∧
      (storer.gaveUp = false →
        entry.storedAt setting - storer.startedAt = storer.duration st.now)
  stores : ∀ action t userId entry, step setting st action = some t →
    t.redis userId = some entry → st.redis userId = some entry ∨
    ∃ i request, action = .set i true ∧ st.requests[i]? = some request ∧
      request.userId = userId ∧ request.cacheRead = some .miss ∧
      request.toStore = some entry.areaIds ∧
      entry = ⟨entry.areaIds, st.now + setting.ttl entry.areaIds, i⟩

private theorem CacheSound.get {actions : List CacheAction} {st : PresenceCache}
    (h : CacheSound setting db actions st) {userId : UserId} {areaIds : List AreaId}
    (hget : st.get? userId = some areaIds) :
    ∃ entry storer before u, st.redis userId = some entry ∧
      st.requests[entry.storedBy]? = some storer ∧ before <+: actions ∧
      (machine setting).run (start db) before = some u ∧ u.presenceOf userId = areaIds ∧
      st.now ≤ u.now + setting.ttl areaIds + (entry.storedAt setting - storer.startedAt) ∧
      (storer.gaveUp = false →
        entry.storedAt setting - storer.startedAt = storer.duration st.now) := by
  obtain ⟨entry, hentry, hserved⟩ := Option.bind_eq_some_iff.mp hget
  split at hserved
  · rename_i hlive
    cases hserved
    obtain ⟨storer, endedAt, storedAt, hstorer, -, hphase, hwaited, hstarted, hexpires, before, u,
      hbefore, hu, hpresence, hsince⟩ := h.entries userId entry hentry
    have hstoredAt : entry.storedAt setting = storedAt := by
      rw [CacheEntry.storedAt, hexpires, Nat.add_sub_cancel]
    refine ⟨entry, storer, before, u, hentry, hstorer, hbefore, hu, hpresence, ?_, ?_⟩
    · omega
    · intro hgaveUp
      rw [hstoredAt, ← hwaited hgaveUp]
      simp [CachedRequest.duration, CachedRequest.lastsTo, hphase]
  · cases hserved

private theorem get_of_hit {st t : PresenceCache} {i : Nat} {fails : Bool}
    {request : CachedRequest} {areaIds : List AreaId}
    (hstep : PresenceCache.step setting st (.get i fails) = some t)
    (hrequest : t.requests[i]? = some request)
    (hread : request.cacheRead = some (.hit areaIds)) :
    st.get? request.userId = some areaIds := by
  obtain ⟨asking, hasking, hanswer⟩ := Option.bind_eq_some_iff.mp hstep
  simp only [stepRequest] at hanswer
  split at hanswer
  · cases hanswer
    change (st.requests.set i (st.answerGet asking fails))[i]? = some request at hrequest
    rw [List.getElem?_set_self (List.getElem?_eq_some_iff.mp hasking).1] at hrequest
    cases hrequest
    have huser : (st.answerGet asking fails).userId = asking.userId := by
      unfold CachedRequest.userId
      rw [(answerGet_call st asking fails).1]
    rw [huser]
    exact answerGet_hit hread
  · cases hanswer

private theorem CacheSound.stores {actions : List CacheAction} {st t : PresenceCache}
    (h : CacheSound setting db actions st) {action : CacheAction} {userId : UserId}
    {entry : CacheEntry} (hstep : PresenceCache.step setting st action = some t)
    (hentry : t.redis userId = some entry) :
    st.redis userId = some entry ∨ ∃ i request, action = .set i true ∧
      st.requests[i]? = some request ∧ request.userId = userId ∧
      request.cacheRead = some .miss ∧ request.toStore = some entry.areaIds ∧
      entry = ⟨entry.areaIds, st.now + setting.ttl entry.areaIds, i⟩ := by
  cases step_cases hstep with
  | ticked => exact Or.inl hentry
  | reported call => exact Or.inl hentry
  | outside _ _ _ hredis => exact Or.inl (hredis userId entry hentry)
  | moved _ _ _ _ _ _ _ _ _ _ _ hredis => exact Or.inl (hredis userId entry hentry)
  | stored i request hint endedAt hrequest htoStore hwaited =>
    change Function.update st.redis request.userId _ userId = some entry at hentry
    by_cases huser : userId = request.userId
    · subst huser
      rw [Function.update_self] at hentry
      cases hentry
      have hsound := h.requests request (List.mem_of_getElem? hrequest)
      exact Or.inr ⟨i, request, rfl, hrequest, rfl, (hsound.toStore hint htoStore).1, htoStore, rfl⟩
    · rw [Function.update_of_ne huser] at hentry
      exact Or.inl hentry

theorem bounded_staleness (setting : CacheSetting) (db : Database) (actions : List CacheAction)
    (st : PresenceCache) (hrun : (machine setting).run (start db) actions = some st) :
    BoundedStaleness setting db actions st where
  hits := by
    intro i fails t request areaIds hstep hrequest hread
    exact (cacheSound_run hrun).get (get_of_hit hstep hrequest hread)
  stores := by
    intro action t userId entry hstep hentry
    exact (cacheSound_run hrun).stores hstep hentry

private def defaultSetting : CacheSetting := ⟨Externals.reference.pg, ⟨300, 15⟩, 1000⟩

private def cachedCall (covering : List AreaId) : ReportCall :=
  ⟨{ userId := "u", lat := 1, lng := 1 }, 10, covering⟩

private def readAsideRace : List CacheAction :=
  [.report (cachedCall []), .report (cachedCall ["a"]), .get 0 false, .readUnlocked 0 none,
    .get 1 true, .readUnlocked 1 none, .tick, .commit 1 true, .del 1 true, .set 0 true, .tick,
    .report (cachedCall ["a"])]

/-- A read that predates a commit is stored after the DEL of that commit, and is served. -/
theorem bounded_staleness_race :
    ∃ st, (machine defaultSetting).run (start (.initial sampleAreas)) readAsideRace = some st ∧
      st.presenceOf "u" = ["a"] ∧ st.get? "u" = some [] ∧
      BoundedStaleness defaultSetting (.initial sampleAreas) readAsideRace st := by
  have hend : ((machine defaultSetting).run (start (.initial sampleAreas)) readAsideRace).any
      (fun st => decide (st.presenceOf "u" = ["a"] ∧ st.get? "u" = some [])) = true := by
    decide +kernel
  obtain ⟨st, hrun, hpresence, hget⟩ := Machine.exists_end _ hend
  exact ⟨st, hrun, hpresence, hget, bounded_staleness _ _ readAsideRace st hrun⟩

/-- A bound that counts the duration of the storing request instead. -/
def WithinDuration (setting : CacheSetting) (db : Database) (actions : List CacheAction)
    (st : PresenceCache) (userId : UserId) (areaIds : List AreaId) : Prop :=
  ∃ entry storer before u, st.redis userId = some entry ∧
    st.requests[entry.storedBy]? = some storer ∧ before <+: actions ∧
    (machine setting).run (start db) before = some u ∧ u.presenceOf userId = areaIds ∧
    st.now ≤ u.now + setting.ttl areaIds + storer.duration st.now

/-- A request reads no areas, gives its SET up and returns at once; another one commits an entry
and sends its DEL; Redis then carries the SET out. -/
private def lateSet : List CacheAction :=
  [.report (cachedCall []), .report (cachedCall ["a"]), .get 0 false, .readUnlocked 0 none,
    .get 1 true, .readUnlocked 1 none, .giveUp 0, .commit 1 true, .del 1 true, .tick, .tick,
    .set 0 true, .tick, .report (cachedCall ["a"])]

private def shortSetting : CacheSetting := ⟨Externals.reference.pg, ⟨1, 1⟩, 1⟩

/-- The value is served when its TTL and the duration of its storer have both passed since it was
last the committed presence. -/
theorem hit_of_late_set :
    ∃ st t request, (machine shortSetting).run (start (.initial sampleAreas)) lateSet = some st ∧
      step shortSetting st (.get 2 false) = some t ∧ t.requests[2]? = some request ∧
      request.userId = "u" ∧ request.cacheRead = some (.hit []) ∧
      ¬ WithinDuration shortSetting (.initial sampleAreas) lateSet st "u" [] := by
  have hend : ((machine shortSetting).run (start (.initial sampleAreas)) lateSet).any (fun st =>
      decide (st.redis "u" = some ⟨[], 3, 0⟩ ∧ st.now = 3) &&
        (st.requests[0]?).all (fun storer => storer.duration 3 = 0) &&
        (step shortSetting st (.get 2 false)).any (fun t => (t.requests[2]?).any fun request =>
          decide (request.userId = "u" ∧ request.cacheRead = some (.hit [])))) = true := by
    decide +kernel
  have hearly : (lateSet.inits.all fun before =>
      ((machine shortSetting).run (start (.initial sampleAreas)) before).all fun u =>
        decide (u.presenceOf "u" = [] → u.now = 0)) = true := by decide +kernel
  obtain ⟨st, hrun, hst⟩ := (Option.any_eq_true _ _).mp hend
  simp only [Bool.and_eq_true, decide_eq_true_eq] at hst
  obtain ⟨⟨⟨hentry, hnow⟩, hstorer⟩, hget⟩ := hst
  obtain ⟨t, hstep, ht⟩ := (Option.any_eq_true _ _).mp hget
  obtain ⟨request, hrequest, hread⟩ := (Option.any_eq_true _ _).mp ht
  obtain ⟨huser, hhit⟩ := of_decide_eq_true hread
  refine ⟨st, t, request, hrun, hstep, hrequest, huser, hhit, ?_⟩
  rintro ⟨entry, storer, before, u, hentry', hstorer', hbefore, hu, hpresence, hbound⟩
  obtain rfl := Option.some.inj (hentry.symm.trans hentry')
  have hduration : storer.duration st.now = 0 := by
    rw [hnow]
    exact of_decide_eq_true ((Option.all_eq_true _ _).mp hstorer storer hstorer')
  have hfirst : u.now = 0 := by
    have hstates := List.all_eq_true.mp hearly before ((List.mem_inits _ _).mpr hbefore)
    exact of_decide_eq_true ((Option.all_eq_true _ _).mp hstates u hu) hpresence
  have httl : shortSetting.ttl [] = 1 := rfl
  omega

end Contract

end PresenceCache

end Geofence
