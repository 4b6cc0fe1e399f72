import MessageFormat.Rendering.Renderer

/-!
A cache of prepared messages. Messages that fail to prepare are not kept, and an entry that is
present is never replaced.
-/

namespace MessageFormat

inductive Output where
  | text
  | parts
deriving DecidableEq, Repr

structure CacheKey where
  locale : String
  output : Output
  pattern : String
deriving DecidableEq, Repr

inductive LogEntry where
  | missingMessage (id locale : String)
  | preparing (locale pattern : String)
deriving DecidableEq, Repr

structure Cache where
  enabled : Bool := true
  entries : List (CacheKey × Prepared) := []

structure Fetched (ε : Type) where
  result : Except ε Prepared
  cache : Cache
  fresh : Bool

namespace Cache

def disabled : Cache := { enabled := false }

def get? (cache : Cache) (key : CacheKey) : Option Prepared :=
  cache.entries.lookup key

def size (cache : Cache) : Nat :=
  cache.entries.length

def isEmpty (cache : Cache) : Bool :=
  cache.entries.isEmpty

def clear (cache : Cache) : Cache :=
  { cache with entries := [] }

def keys (cache : Cache) : List CacheKey :=
  cache.entries.map (·.1)

/-- The message under a key. If there is none it is prepared and, on success, kept. -/
def fetch {ε : Type} (cache : Cache) (key : CacheKey) (prepare : Unit → Except ε Prepared) :
    Fetched ε :=
  if cache.enabled then
    match cache.get? key with
    | some prepared => ⟨.ok prepared, cache, false⟩
    | none =>
        match prepare () with
        | .ok prepared =>
            ⟨.ok prepared, { cache with entries := (key, prepared) :: cache.entries }, true⟩
        | .error error => ⟨.error error, cache, true⟩
  else ⟨prepare (), cache, true⟩

/-- The log of fetching under a key. Only a cache that keeps messages records what it lacks. -/
def fetchLog (cache : Cache) (key : CacheKey) : List LogEntry :=
  if cache.enabled && (cache.get? key).isNone then [.preparing key.locale key.pattern] else []

end Cache

end MessageFormat
