import LayeredFetch.Resource.Tagged
import LayeredFetch.Table
import LayeredFetch.Transport

/-!
The state in which requests are made: a server, caches under their names, and the
history.

* **Caches.** A cache maps URIs to tagged resources. A name that no cache was
  opened under stands for an empty one.
* **Instances.** `enroll` is the one place where an answer becomes a tagged
  resource; a new instance takes the next serial number.
* **History.** `exchanges` holds every request that reached the transport, with
  its outcome, and `events` everything reported, in order.
-/

namespace LayeredFetch

/-- Tagged resources under the URIs they came from. -/
abbrev Cache := Table Tagged

/-- A request that reached the transport, and what came of it. -/
structure Exchange where
  request : Request
  outcome : Except FetchError Resource

/-- The state in which requests are made. -/
structure World (σ : Type) where
  server : σ
  caches : Table Cache
  nextSerial : Nat
  exchanges : List Exchange
  events : List Event

namespace World

variable {σ : Type}

/-- The state at the beginning: no caches and no history. -/
def initial (server : σ) : World σ := ⟨server, .empty, 0, [], []⟩

/-! ### Caches -/

/-- The cache under a name. -/
def cache (w : World σ) (name : String) : Cache := (w.caches.get? name).getD .empty

/-- The state with another cache under a name. -/
def setCache (w : World σ) (name : String) (c : Cache) : World σ :=
  { w with caches := w.caches.insert name c }

/-- Makes sure that there is a cache under a name. -/
def openCache (w : World σ) (name : String) : World σ := w.setCache name (w.cache name)

/-- What a cache holds under a URI. -/
def held? (w : World σ) (cache uri : String) : Option Tagged := (w.cache cache).get? uri

/-- Puts a tagged resource under a URI, in place of what was there. -/
def store (w : World σ) (cache uri : String) (t : Tagged) : World σ :=
  w.setCache cache ((w.cache cache).insert uri t)

/-- Drops what a cache holds under a URI. -/
def drop (w : World σ) (cache uri : String) : World σ :=
  w.setCache cache ((w.cache cache).erase uri)

/-- Drops everything a cache holds. -/
def clear (w : World σ) (cache : String) : World σ := w.setCache cache .empty

/-! ### Instances and history -/

/-- The state after the number of a new instance is taken. -/
def mint (w : World σ) : World σ := { w with nextSerial := w.nextSerial + 1 }

/-- Makes a fetched value tagged if it can be: a tagged one is kept as it is, and
a plain one with an entity tag becomes a new instance. -/
def enroll (w : World σ) (uri : String) (f : Fetched) : Option Tagged × World σ :=
  (f.tag? w.nextSerial uri, if f.isTaggable then w.mint else w)

/-- Adds an event to the history. -/
def report (w : World σ) (e : Event) : World σ := { w with events := w.events ++ [e] }

/-- Sends a request through the transport. -/
def send (t : Transport σ) (r : Request) (w : World σ) : Except FetchError Fetched × World σ :=
  let (reply, server) := t.perform w.server r
  (reply.outcome.map .plain,
    { w with
      server
      exchanges := w.exchanges ++ [⟨r, reply.outcome⟩]
      events := w.events ++ reply.events })

/-! ### What each operation does to the caches -/

variable {w : World σ} {name other uri : String}

theorem cache_setCache (c : Cache) :
    (w.setCache name c).cache other = if other = name then c else w.cache other := by
  by_cases h : other = name
  · simp [cache, setCache, h]
  · simp [cache, setCache, Table.get?_insert, h]

@[simp] theorem cache_openCache : (w.openCache name).cache other = w.cache other := by
  simp only [openCache, cache_setCache]
  split <;> simp_all

@[simp] theorem caches_enroll (f : Fetched) : (w.enroll uri f).2.caches = w.caches := by
  unfold enroll
  split <;> rfl

@[simp] theorem exchanges_enroll (f : Fetched) :
    (w.enroll uri f).2.exchanges = w.exchanges := by
  unfold enroll
  split <;> rfl

theorem held?_store (t : Tagged) (uri' : String) :
    (w.store name uri t).held? other uri' =
      if other = name ∧ uri' = uri then some t else w.held? other uri' := by
  by_cases h : other = name
  · simp [held?, store, cache_setCache, Table.get?_insert, h]
  · simp [held?, store, cache_setCache, h]

theorem held?_drop (uri' : String) :
    (w.drop name uri).held? other uri' =
      if other = name ∧ uri' = uri then none else w.held? other uri' := by
  by_cases h : other = name
  · simp [held?, drop, cache_setCache, Table.get?_erase, h]
  · simp [held?, drop, cache_setCache, h]

theorem held?_clear (uri' : String) :
    (w.clear name).held? other uri' = if other = name then none else w.held? other uri' := by
  by_cases h : other = name
  · simp [held?, clear, cache_setCache, h]
  · simp [held?, clear, cache_setCache, h]

end World

end LayeredFetch
