import Geofence.Framework.Machine
import Geofence.Locations.Report
/-!
# `PresenceCacheService` and the requests that use it

`report` without worker memory, cut at its awaits: any number of requests on any number of
instances, over one Redis and one database. A command is carried out at one moment or lost, and a
failure does not tell which: the client gives a command up after its `commandTimeout`, and Redis
may carry it out when the request has long returned. Time is a counter that moves between the
steps.
-/

namespace Geofence

open Framework

structure RedisConfig where
  presenceTtlEmptyS : Nat
  presenceTtlNonEmptyS : Nat

/-- The `EX` of a populate, which differs by value. -/
def RedisConfig.ttlS (config : RedisConfig) (areaIds : List AreaId) : Nat :=
  if areaIds.length = 0 then config.presenceTtlEmptyS else config.presenceTtlNonEmptyS

/-- The value of a key and the last instant it is served at; `storedBy` is the request that set
it. -/
structure CacheEntry where
  areaIds : List AreaId
  expiresAt : Nat
  storedBy : Nat
  deriving DecidableEq, Repr

/-- The await a request is suspended on. `abandoned` is a request that has returned with its SET
still on its way. -/
inductive CachePhase where
  | getting
  | reading
  | populating (hint : List AreaId)
  | changing
  | invalidating
  | abandoned (endedAt : Nat) (hint : List AreaId)
  | ended (endedAt : Nat)
  deriving DecidableEq, Repr

structure CachedRequest where
  call : ReportCall
  startedAt : Nat
  cacheRead : Option PresenceCacheRead
  phase : CachePhase
  gaveUp : Bool

structure PresenceCache where
  now : Nat
  db : Database
  redis : UserId → Option CacheEntry
  requests : List CachedRequest

/-- `giveUp` is the `commandTimeout` of a SET. `elsewhere` is any other commit to the presence
table, `evict` a DEL by a worker, one that was given up, or a key that Redis drops. -/
inductive CacheAction where
  | tick
  | report (call : ReportCall)
  | get (request : Nat) (fails : Bool)
  | readUnlocked (request : Nat) (error : Option PgError)
  | set (request : Nat) (carriedOut : Bool)
  | giveUp (request : Nat)
  | commit (request : Nat) (answered : Bool)
  | rollBack (request : Nat)
  | del (request : Nat) (carriedOut : Bool)
  | elsewhere (presence : PresenceTable)
  | createArea (row : AreaGeometryRow)
  | evict (userId : UserId)

/-- The clock's units in a second, the TTLs and the server. -/
structure CacheSetting where
  pg : Postgres
  config : RedisConfig
  second : Nat

def CacheSetting.ttl (setting : CacheSetting) (areaIds : List AreaId) : Nat :=
  setting.config.ttlS areaIds * setting.second

/-- The instant Redis carried the SET out at, from which the TTL runs. -/
def CacheEntry.storedAt (setting : CacheSetting) (entry : CacheEntry) : Nat :=
  entry.expiresAt - setting.ttl entry.areaIds

namespace CachedRequest

def userId (request : CachedRequest) : UserId := request.call.dto.userId

def goto (request : CachedRequest) (phase : CachePhase) : CachedRequest := { request with phase }

/-- The fork on the hint; only a clean miss writes back. -/
def fork (request : CachedRequest) (hint : List AreaId) (now : Nat) : CachedRequest :=
  request.goto (if differs request.call.currentAreaIds hint then .changing
    else if request.cacheRead = some .miss then .populating hint else .ended now)

/-- The instant the request ended at, or the present one. -/
def lastsTo (request : CachedRequest) (now : Nat) : Nat :=
  match request.phase with
  | .ended endedAt | .abandoned endedAt _ => endedAt
  | _ => now

def duration (request : CachedRequest) (now : Nat) : Nat := request.lastsTo now - request.startedAt

/-- The value of a SET that has neither been carried out nor been lost. -/
def toStore (request : CachedRequest) : Option (List AreaId) :=
  match request.phase with
  | .populating hint | .abandoned _ hint => some hint
  | _ => none

end CachedRequest

namespace PresenceCache

def start (db : Database) : PresenceCache := ⟨0, db, fun _ => none, []⟩

/-- The committed presence of a user. -/
def presenceOf (st : PresenceCache) (userId : UserId) : List AreaId :=
  st.db.presence.areaIds userId

/-- What a GET that does not fail answers. -/
def get? (st : PresenceCache) (userId : UserId) : Option (List AreaId) :=
  (st.redis userId).bind fun entry => if st.now ≤ entry.expiresAt then some entry.areaIds else none

def setRequest (st : PresenceCache) (i : Nat) (request : CachedRequest) : PresenceCache :=
  { st with requests := st.requests.set i request }

def setKey (st : PresenceCache) (userId : UserId) (entry : Option CacheEntry) : PresenceCache :=
  { st with redis := Function.update st.redis userId entry }

/-- `get`: an error is not a miss. -/
def answerGet (st : PresenceCache) (request : CachedRequest) (fails : Bool) : CachedRequest :=
  if fails then { request with cacheRead := some .error, phase := .reading }
  else
    match st.get? request.userId with
    | some areaIds => { request with cacheRead := some (.hit areaIds) }.fork areaIds st.now
    | none => { request with cacheRead := some .miss, phase := .reading }

/-- `populate`; the server refuses an `EX` of zero. -/
def populate (setting : CacheSetting) (st : PresenceCache) (i : Nat) (userId : UserId)
    (areaIds : List AreaId) (carriedOut : Bool) : PresenceCache :=
  if carriedOut && decide (0 < setting.config.ttlS areaIds) then
    st.setKey userId (some ⟨areaIds, st.now + setting.ttl areaIds, i⟩)
  else st

def invalidate (st : PresenceCache) (userId : UserId) (carriedOut : Bool) : PresenceCache :=
  if carriedOut then st.setKey userId none else st

/-- The step of a request, with what the outside answers to its await. -/
def stepRequest (setting : CacheSetting) (st : PresenceCache) (i : Nat) (request : CachedRequest) :
    CacheAction → Option PresenceCache
  | .get _ fails =>
    match request.phase with
    | .getting => some (st.setRequest i (st.answerGet request fails))
    | _ => none
  | .readUnlocked _ error =>
    match request.phase, error with
    | .reading, some _ => some (st.setRequest i (request.goto (.ended st.now)))
    | .reading, none =>
      some (st.setRequest i (request.fork (st.presenceOf request.userId) st.now))
    | _, _ => none
  | .set _ carriedOut =>
    match request.phase with
    | .populating hint =>
      some ((st.populate setting i request.userId hint carriedOut).setRequest i
        (request.goto (.ended st.now)))
    | .abandoned endedAt hint =>
      some ((st.populate setting i request.userId hint carriedOut).setRequest i
        (request.goto (.ended endedAt)))
    | _ => none
  | .giveUp _ =>
    match request.phase with
    | .populating hint =>
      some (st.setRequest i { request with phase := .abandoned st.now hint, gaveUp := true })
    | _ => none
  | .commit _ answered =>
    match request.phase with
    | .changing =>
      match transaction setting.pg request.call st.db with
      | .error _ => some (st.setRequest i (request.goto (.ended st.now)))
      | .ok (db, _) =>
        some ({ st with db }.setRequest i
          (request.goto (if answered then .invalidating else .ended st.now)))
    | _ => none
  | .rollBack _ =>
    match request.phase with
    | .changing => some (st.setRequest i (request.goto (.ended st.now)))
    | _ => none
  | .del _ carriedOut =>
    match request.phase with
    | .invalidating =>
      some ((st.invalidate request.userId carriedOut).setRequest i
        (request.goto (.ended st.now)))
    | _ => none
  | _ => none

def step (setting : CacheSetting) (st : PresenceCache) (action : CacheAction) :
    Option PresenceCache :=
  match action with
  | .tick => some { st with now := st.now + 1 }
  | .report call => some { st with requests := st.requests ++ [⟨call, st.now, none, .getting, false⟩] }
  | .elsewhere presence => some { st with db := { st.db with presence } }
  | .createArea row => (st.db.createArea row).map fun db => { st with db }
  | .evict userId => some (st.setKey userId none)
  | .get i _ | .readUnlocked i _ | .set i _ | .giveUp i | .commit i _ | .rollBack i | .del i _ =>
    (st.requests[i]?).bind fun request => st.stepRequest setting i request action

def machine (setting : CacheSetting) : Machine PresenceCache CacheAction := ⟨step setting⟩

section Uninterrupted

variable {setting : CacheSetting} {i : Nat}

/-- A command of `report`, with what becomes of its DEL. -/
def carryOut (setting : CacheSetting) (i : Nat) (invalidated : Bool) (st : PresenceCache) :
    RedisCommand → PresenceCache
  | .set userId areaIds => st.populate setting i userId areaIds true
  | .del userId => st.invalidate userId invalidated

/-- Some steps lead from `st` to the outcome of a call of request `i`. -/
def Performs (setting : CacheSetting) (i : Nat) (answers : Answers) (st : PresenceCache)
    (outcome : ReportOutcome) : Prop :=
  ∃ actions t, (machine setting).run st actions = some t ∧ t.db = outcome.state.db ∧
    t.redis = (outcome.redis.foldl (carryOut setting i answers.invalidated) st).redis

private theorem carryOut_congr (setting : CacheSetting) (i : Nat) {st u : PresenceCache}
    (hnow : u.now = st.now)
    (hredis : u.redis = st.redis) (invalidated : Bool) (command : RedisCommand) :
    (carryOut setting i invalidated u command).now =
        (carryOut setting i invalidated st command).now ∧
      (carryOut setting i invalidated u command).redis =
        (carryOut setting i invalidated st command).redis := by
  cases command with
  | set userId areaIds =>
    simp only [carryOut, populate]
    split
    · simp only [setKey, hnow, hredis]
      exact ⟨trivial, trivial⟩
    · exact ⟨hnow, hredis⟩
  | del userId =>
    cases invalidated with
    | false => exact ⟨hnow, hredis⟩
    | true =>
      simp only [carryOut, invalidate, setKey, hredis]
      exact ⟨hnow, rfl⟩

private theorem foldl_carryOut_congr {st u : PresenceCache} (hnow : u.now = st.now)
    (hredis : u.redis = st.redis) (invalidated : Bool) (commands : List RedisCommand) :
    (commands.foldl (carryOut setting i invalidated) u).redis =
      (commands.foldl (carryOut setting i invalidated) st).redis := by
  induction commands generalizing st u with
  | nil => exact hredis
  | cons command commands ih =>
    obtain ⟨hnow', hredis'⟩ := carryOut_congr setting i hnow hredis invalidated command
    exact ih hnow' hredis'

private theorem Performs.after {st u : PresenceCache} {action : CacheAction} {answers : Answers}
    {outcome : ReportOutcome} (hstep : step setting st action = some u) (hnow : u.now = st.now)
    (hredis : u.redis = st.redis) (h : Performs setting i answers u outcome) :
    Performs setting i answers st outcome := by
  obtain ⟨actions, t, hrun, hdb, hset⟩ := h
  exact ⟨action :: actions, t, (machine setting).run_cons_eq_some.mpr ⟨u, hstep, hrun⟩, hdb,
    hset.trans (foldl_carryOut_congr hnow hredis answers.invalidated outcome.redis)⟩

private theorem performs_one {st t : PresenceCache} {action : CacheAction} {answers : Answers}
    {outcome : ReportOutcome} (hstep : step setting st action = some t)
    (hdb : t.db = outcome.state.db)
    (hredis : t.redis = (outcome.redis.foldl (carryOut setting i answers.invalidated) st).redis) :
    Performs setting i answers st outcome :=
  ⟨[action], t, (machine setting).run_cons_eq_some.mpr ⟨t, hstep, rfl⟩, hdb, hredis⟩

private theorem step_del_of {st : PresenceCache} {request : CachedRequest}
    (hrequest : st.requests[i]? = some request) (hphase : request.phase = .invalidating)
    (carriedOut : Bool) :
    step setting st (.del i carriedOut) =
      some ((st.invalidate request.userId carriedOut).setRequest i
        (request.goto (.ended st.now))) := by
  simp [step, hrequest, stepRequest, hphase]

private theorem performs_changePath {st : PresenceCache} {request : CachedRequest}
    (hrequest : st.requests[i]? = some request) (hphase : request.phase = .changing)
    (spatial : SpatialLibrary) {service : ServiceState} (hdb : service.db = st.db)
    (answers : Answers) :
    Performs setting i answers st
      (changePath ⟨spatial, setting.pg⟩ service request.call request.cacheRead answers) := by
  have hlt : i < st.requests.length := (List.getElem?_eq_some_iff.mp hrequest).1
  unfold changePath
  rw [hdb]
  cases htx : transaction setting.pg request.call st.db with
  | error e =>
    have hcommit : step setting st (.commit i true) =
        some (st.setRequest i (request.goto (.ended st.now))) := by
      simp [step, hrequest, stepRequest, hphase, htx]
    cases answers.fate with
    | completes => exact performs_one hcommit hdb.symm rfl
    | rolledBack _ => exact performs_one hcommit hdb.symm rfl
    | commitLost _ => exact performs_one hcommit hdb.symm rfl
  | ok r =>
    obtain ⟨db, result⟩ := r
    cases hfate : answers.fate with
    | completes =>
      have hcommit : step setting st (.commit i true) =
          some ({ st with db }.setRequest i (request.goto .invalidating)) := by
        simp [step, hrequest, stepRequest, hphase, htx]
      apply Performs.after hcommit rfl rfl
      have hnext : ({ st with db }.setRequest i (request.goto .invalidating)).requests[i]? =
          some (request.goto .invalidating) := List.getElem?_set_self hlt
      refine performs_one (step_del_of hnext rfl answers.invalidated) ?_ ?_
      · cases answers.invalidated with
        | false => rfl
        | true => rfl
      · cases answers.invalidated with
        | false => rfl
        | true => rfl
    | rolledBack _ =>
      have hrollBack : step setting st (.rollBack i) =
          some (st.setRequest i (request.goto (.ended st.now))) := by
        simp [step, hrequest, stepRequest, hphase]
      exact performs_one hrollBack hdb.symm rfl
    | commitLost _ =>
      have hcommit : step setting st (.commit i false) =
          some ({ st with db }.setRequest i (request.goto (.ended st.now))) := by
        simp [step, hrequest, stepRequest, hphase, htx]
      exact performs_one hcommit rfl rfl

private theorem performs_fork {st : PresenceCache} {request : CachedRequest} {hint : List AreaId}
    (hrequest : st.requests[i]? = some (request.fork hint st.now)) (spatial : SpatialLibrary)
    {service : ServiceState} (hdb : service.db = st.db) (answers : Answers) :
    Performs setting i answers st
      (if differs request.call.currentAreaIds hint then
        changePath ⟨spatial, setting.pg⟩ service request.call request.cacheRead answers
      else ⟨service, if request.cacheRead = some .miss then [.set request.userId hint] else [],
        .ok ⟨[], false⟩⟩) := by
  unfold CachedRequest.fork at hrequest
  by_cases hdiff : differs request.call.currentAreaIds hint = true
  · rw [if_pos hdiff] at hrequest ⊢
    exact performs_changePath hrequest rfl spatial hdb answers
  · rw [if_neg hdiff] at hrequest ⊢
    by_cases hmiss : request.cacheRead = some .miss
    · rw [if_pos hmiss] at hrequest ⊢
      have hset : step setting st (.set i true) =
          some ((st.populate setting i request.userId hint true).setRequest i
            (request.goto (.ended st.now))) := by
        simp [step, hrequest, stepRequest, CachedRequest.goto, CachedRequest.userId]
      refine performs_one hset ?_ rfl
      change (st.populate setting i request.userId hint true).db = service.db
      rw [hdb]
      unfold populate
      split
      · rfl
      · rfl
    · rw [if_neg hmiss]
      exact ⟨[], st, rfl, hdb.symm, rfl⟩

/-- A GET that answers or fails as the call is told. -/
def Answered (st : PresenceCache) (userId : UserId) : PresenceCacheRead → Prop
  | .hit areaIds => st.get? userId = some areaIds
  | .miss => st.get? userId = none
  | .error => True

private theorem performs_reading {st : PresenceCache} {request : CachedRequest}
    (hrequest : st.requests[i]? = some request) (hphase : request.phase = .reading)
    (spatial : SpatialLibrary) {service : ServiceState} (hdb : service.db = st.db)
    (answers : Answers) :
    Performs setting i answers st
      (match (do
          let hint ← readPresenceUnlocked service request.userId answers
          return (service, request.cacheRead, hint)) with
      | .error e => ⟨service, [], .error e⟩
      | .ok (service, cacheRead, hint) =>
        if differs request.call.currentAreaIds hint then
          changePath ⟨spatial, setting.pg⟩ service request.call cacheRead answers
        else ⟨service, if cacheRead = some .miss then [.set request.userId hint] else [],
          .ok ⟨[], false⟩⟩) := by
  have hlt : i < st.requests.length := (List.getElem?_eq_some_iff.mp hrequest).1
  unfold readPresenceUnlocked
  cases answers.unlockedRead with
  | some e =>
    have hread : step setting st (.readUnlocked i (some e)) =
        some (st.setRequest i (request.goto (.ended st.now))) := by
      simp [step, hrequest, stepRequest, hphase]
    exact performs_one hread hdb.symm rfl
  | none =>
    have hread : step setting st (.readUnlocked i none) =
        some (st.setRequest i (request.fork (st.presenceOf request.userId) st.now)) := by
      simp [step, hrequest, stepRequest, hphase]
    apply Performs.after hread rfl rfl
    have hnext : (st.setRequest i
        (request.fork (st.presenceOf request.userId) st.now)).requests[i]? =
        some (request.fork (st.presenceOf request.userId) st.now) := List.getElem?_set_self hlt
    rw [hdb]
    exact performs_fork hnext spatial hdb answers

/-- Left alone, a request does what `report` does without a memory. -/
theorem performs_report {st : PresenceCache} {call : ReportCall} {startedAt : Nat}
    (hrequest : st.requests[i]? = some ⟨call, startedAt, none, .getting, false⟩)
    (spatial : SpatialLibrary) {service : ServiceState} (hdb : service.db = st.db)
    (hmemory : service.memory = none)
    (hcovering : coveringAreaIds ⟨spatial, setting.pg⟩ service.snapshot call.dto =
      .ok call.currentAreaIds)
    (answers : Answers) (hread : st.Answered call.dto.userId answers.cacheRead) :
    Performs setting i answers st
      (report ⟨spatial, setting.pg⟩ service call.dto call.recordedAt answers) := by
  have hlt : i < st.requests.length := (List.getElem?_eq_some_iff.mp hrequest).1
  have hget : ∀ fails next, st.answerGet ⟨call, startedAt, none, .getting, false⟩ fails = next →
      step setting st (.get i fails) = some (st.setRequest i next) ∧
        (st.setRequest i next).requests[i]? = some next := by
    intro fails next hnext
    subst hnext
    exact ⟨by simp [step, hrequest, stepRequest], List.getElem?_set_self hlt⟩
  unfold report previousHint
  rw [hcovering, hmemory]
  cases hanswer : answers.cacheRead with
  | hit areaIds =>
    rw [hanswer] at hread
    have hserved : st.get? call.dto.userId = some areaIds := hread
    obtain ⟨hstep, hnext⟩ := hget false
      ((⟨call, startedAt, some (.hit areaIds), .getting, false⟩ : CachedRequest).fork areaIds st.now)
      (by simp [answerGet, CachedRequest.userId, hserved])
    exact Performs.after hstep rfl rfl (performs_fork hnext spatial hdb answers)
  | miss =>
    rw [hanswer] at hread
    have hserved : st.get? call.dto.userId = none := hread
    obtain ⟨hstep, hnext⟩ := hget false ⟨call, startedAt, some .miss, .reading, false⟩
      (by simp [answerGet, CachedRequest.userId, hserved])
    exact Performs.after hstep rfl rfl (performs_reading hnext rfl spatial hdb answers)
  | error =>
    obtain ⟨hstep, hnext⟩ := hget true ⟨call, startedAt, some .error, .reading, false⟩ rfl
    exact Performs.after hstep rfl rfl (performs_reading hnext rfl spatial hdb answers)

end Uninterrupted

end PresenceCache

end Geofence
