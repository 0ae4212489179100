import Geofence.Framework.Json
import Geofence.Presence.Cache
/-!
# The texts behind `PresenceCacheService`

Redis holds a text under a text. What the service reads there is what the cache of area ids per
user says, whatever the ids are made of.
-/

namespace Geofence

open Framework

/-- A value of Redis, with the last instant it is served at and the request that set it. -/
structure StoredText where
  raw : String
  expiresAt : Nat
  storedBy : Nat

structure RedisTexts where
  now : Nat
  texts : String → Option StoredText

/-- The calls of the service, the keys Redis drops and the time that passes. -/
inductive RedisTextsAction where
  | populate (request : Nat) (userId : UserId) (areaIds : List AreaId) (carriedOut : Bool)
  | invalidate (userId : UserId) (carriedOut : Bool)
  | evict (userId : UserId)
  | tick

namespace RedisTexts

def start : RedisTexts := ⟨0, fun _ => none⟩

def key (userId : UserId) : String := "presence:" ++ userId

/-- `JSON.stringify(areaIds)` -/
def render (areaIds : List AreaId) : String :=
  String.ofList (Json.arr (areaIds.map .str)).stringify

/-- The strings of an array of strings. -/
def areaIds? : Json → Option (List AreaId)
  | .arr items => items.mapM fun item =>
      match item with
      | .str text => some text
      | _ => none
  | _ => none

/-- `get`; `none` stands for a value that is no array of strings, which the code takes for one. -/
def get? (st : RedisTexts) (userId : UserId) (fails : Bool) : Option PresenceCacheRead :=
  if fails then some .error
  else
    match (st.texts (key userId)).filter fun stored => st.now ≤ stored.expiresAt with
    | none => some .miss
    | some stored =>
      match Json.parse? stored.raw with
      | none => some .error
      | some value => (areaIds? value).map .hit

def set (st : RedisTexts) (userId : UserId) (stored : Option StoredText) : RedisTexts :=
  { st with texts := Function.update st.texts (key userId) stored }

/-- `populate`; the server refuses an `EX` of zero. -/
def populate (setting : CacheSetting) (st : RedisTexts) (request : Nat) (userId : UserId)
    (areaIds : List AreaId) (carriedOut : Bool) : RedisTexts :=
  if carriedOut && decide (0 < setting.config.ttlS areaIds) then
    st.set userId (some ⟨render areaIds, st.now + setting.ttl areaIds, request⟩)
  else st

def step (setting : CacheSetting) (st : RedisTexts) : RedisTextsAction → RedisTexts
  | .populate request userId areaIds carriedOut =>
    st.populate setting request userId areaIds carriedOut
  | .invalidate userId carriedOut => if carriedOut then st.set userId none else st
  | .evict userId => st.set userId none
  | .tick => { st with now := st.now + 1 }

/-- The same on the cache of area ids. -/
def stepCache (setting : CacheSetting) (st : PresenceCache) : RedisTextsAction → PresenceCache
  | .populate request userId areaIds carriedOut =>
    st.populate setting request userId areaIds carriedOut
  | .invalidate userId carriedOut => st.invalidate userId carriedOut
  | .evict userId => st.setKey userId none
  | .tick => { st with now := st.now + 1 }

/-- What the cache answers to a GET. -/
def answer (st : PresenceCache) (userId : UserId) (fails : Bool) : PresenceCacheRead :=
  if fails then .error
  else
    match st.get? userId with
    | some areaIds => .hit areaIds
    | none => .miss

private theorem key_injective {u v : UserId} (h : key u = key v) : u = v := by
  have hlists := congrArg String.toList h
  rw [key, key, String.toList_append, String.toList_append] at hlists
  exact String.toList_inj.mp (List.append_cancel_left hlists)

private theorem keysOnce_strings (areaIds : List AreaId) :
    Json.ItemsKeysOnce (areaIds.map .str) := by
  induction areaIds with
  | nil => trivial
  | cons areaId areaIds ih => exact ⟨trivial, ih⟩

private theorem areaIds_strings (areaIds : List AreaId) :
    areaIds? (.arr (areaIds.map .str)) = some areaIds := by
  rw [areaIds?]
  induction areaIds with
  | nil => rfl
  | cons areaId areaIds ih =>
    rw [List.map_cons, List.mapM_cons, ih]
    rfl

/-- The text of an entry. -/
def ofEntry (entry : CacheEntry) : StoredText :=
  ⟨render entry.areaIds, entry.expiresAt, entry.storedBy⟩

/-- The texts say what the cache says, user by user. -/
structure Represents (st : RedisTexts) (cache : PresenceCache) : Prop where
  now : st.now = cache.now
  texts : ∀ userId, st.texts (key userId) = (cache.redis userId).map ofEntry

variable {setting : CacheSetting} {st : RedisTexts} {cache : PresenceCache}

theorem Represents.set (h : Represents st cache) (userId : UserId) (entry : Option CacheEntry) :
    Represents (st.set userId (entry.map ofEntry)) (cache.setKey userId entry) := by
  refine ⟨h.now, ?_⟩
  intro other
  change Function.update st.texts (key userId) (entry.map ofEntry) (key other) =
    (Function.update cache.redis userId entry other).map ofEntry
  by_cases hother : other = userId
  · rw [hother, Function.update_self, Function.update_self]
  · have hkey : key other ≠ key userId := fun heq => hother (key_injective heq)
    rw [Function.update_of_ne hkey, Function.update_of_ne hother]
    exact h.texts other

theorem Represents.step (h : Represents st cache) (action : RedisTextsAction) :
    Represents (st.step setting action) (stepCache setting cache action) := by
  cases action with
  | populate request userId areaIds carriedOut =>
    simp only [RedisTexts.step, stepCache, populate, PresenceCache.populate]
    split
    · rw [h.now]
      exact h.set userId (some ⟨areaIds, cache.now + setting.ttl areaIds, request⟩)
    · exact h
  | invalidate userId carriedOut =>
    simp only [RedisTexts.step, stepCache, PresenceCache.invalidate]
    split
    · exact h.set userId none
    · exact h
  | evict userId => exact h.set userId none
  | tick => exact ⟨congrArg (· + 1) h.now, h.texts⟩

theorem Represents.get (h : Represents st cache) (userId : UserId) (fails : Bool) :
    st.get? userId fails = some (answer cache userId fails) := by
  unfold get? answer
  split
  · rfl
  · rw [h.texts, h.now, PresenceCache.get?]
    cases cache.redis userId with
    | none => rfl
    | some entry =>
      have hkeys : Json.KeysOnce (.arr (entry.areaIds.map .str)) := keysOnce_strings entry.areaIds
      have hparse := Json.parse_stringify hkeys
      simp only [Option.map_some, Option.bind_some, Option.filter_some, ofEntry, render]
      by_cases hlive : cache.now ≤ entry.expiresAt
      · simp only [hlive, decide_true, if_true, hparse, areaIds_strings, Option.map_some]
      · simp only [hlive, decide_false, Bool.false_eq_true, if_false]

/-- Whatever the service has written and Redis has dropped, a GET that does not fail finds what
the cache of area ids has, and never a text that is no JSON. -/
theorem presence_texts_refine (setting : CacheSetting) (db : Database)
    (actions : List RedisTextsAction) (userId : UserId) (fails : Bool) :
    (actions.foldl (step setting) start).get? userId fails =
      some (answer (actions.foldl (stepCache setting) (PresenceCache.start db)) userId fails) := by
  have hrun : ∀ (st : RedisTexts) (cache : PresenceCache), Represents st cache →
      Represents (actions.foldl (step setting) st) (actions.foldl (stepCache setting) cache) := by
    induction actions with
    | nil => exact fun _ _ h => h
    | cons action actions ih => exact fun st cache h => ih _ _ (h.step action)
  have hstart : Represents start (PresenceCache.start db) := ⟨rfl, fun _ => rfl⟩
  exact (hrun start (PresenceCache.start db) hstart).get userId fails

end RedisTexts

end Geofence
