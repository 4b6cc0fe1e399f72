import MessageFormat.Formatter.Session
import Mathlib.Data.List.Basic

/-!
# What a request does to a cache

A request to format comes down to one call (`Formatter.call?`), and that to one key: its locale, its
output and the pattern that the catalogs give for it (`Formatter.key?`). All that a request can do
to a cache, short of clearing it, is to add an entry under a key that is not there yet
(`Formatter.serve_cache_cases`). If every entry is what its key prepares to, the answer is that
without a cache (`Formatter.serve_result`).
-/

namespace MessageFormat

/-! ## Fetching -/

namespace Cache

variable {ε : Type} {cache : Cache} {key : CacheKey} {prepared : Prepared}

def keep (cache : Cache) (key : CacheKey) (prepared : Prepared) : Cache :=
  { cache with entries := (key, prepared) :: cache.entries }

theorem get?_eq_none_iff : cache.get? key = none ↔ key ∉ cache.keys := by
  rw [get?, keys, List.lookup_eq_none_iff, List.mem_map, not_exists]
  refine forall_congr' fun entry => ?_
  rw [not_and, bne_iff_ne, ne_comm]

theorem get?_keep (other : CacheKey) :
    (cache.keep key prepared).get? other =
      if other = key then some prepared else cache.get? other := by
  rw [get?, keep, List.lookup_cons]
  by_cases same : other = key
  · simp [same]
  · rw [if_neg same, beq_false_of_ne same]
    rfl

theorem keys_keep : (cache.keep key prepared).keys = key :: cache.keys := rfl

/-- Fetching adds one entry, for a key that was missing and can be prepared, or leaves the cache as
it is. -/
theorem fetch_cases (cache : Cache) (key : CacheKey) (prepare : Unit → Except ε Prepared) :
    ((cache.fetch key prepare).cache = cache ∧
      (cache.enabled = true → (cache.fetch key prepare).result.isOk = true → key ∈ cache.keys)) ∨
    (cache.enabled = true ∧ key ∉ cache.keys ∧ ∃ prepared, prepare () = .ok prepared ∧
      (cache.fetch key prepare).result = .ok prepared ∧
      (cache.fetch key prepare).cache = cache.keep key prepared) := by
  fun_cases Cache.fetch cache key prepare with
  | case1 enabled prepared found =>
    refine .inl ⟨rfl, fun _ _ => ?_⟩
    by_contra absent
    rw [get?_eq_none_iff.2 absent] at found
    cases found
  | case2 enabled missing prepared ready =>
    exact .inr ⟨enabled, get?_eq_none_iff.1 missing, prepared, ready, rfl, rfl⟩
  | case3 enabled missing error failed => exact .inl ⟨rfl, fun _ => nofun⟩
  | case4 disabled => exact .inl ⟨rfl, fun enabled => absurd enabled disabled⟩

theorem fetch_disabled (key : CacheKey) (prepare : Unit → Except ε Prepared) :
    disabled.fetch key prepare = ⟨prepare (), disabled, true⟩ := rfl

theorem fetch_result {prepare : Unit → Except ε Prepared}
    (sound : ∀ prepared, cache.get? key = some prepared → prepare () = .ok prepared) :
    (cache.fetch key prepare).result = prepare () := by
  fun_cases Cache.fetch cache key prepare with
  | case1 enabled prepared found => exact (sound prepared found).symm
  | case2 enabled missing prepared ready => exact ready.symm
  | case3 enabled missing error failed => exact failed.symm
  | case4 disabled => rfl

end Cache

/-! ## Calls -/

structure Call where
  locale : String
  output : Output
  pattern : String
  id : String

namespace Formatter

variable {formatter other : Formatter} {cache : Cache} {request : Request} {call : Call}

def call? (formatter : Formatter) : Request → Option Call
  | .format pattern _ =>
      some ⟨formatter.locale, .text, pattern, formatter.derivedId pattern⟩
  | .formatIn locale pattern _ => some ⟨locale, .text, pattern, formatter.derivedId pattern⟩
  | .formatToParts pattern _ =>
      some ⟨formatter.locale, .parts, pattern, formatter.derivedId pattern⟩
  | .formatMessage descriptor _ =>
      some ⟨formatter.locale, .text, descriptor.pattern, formatter.messageId descriptor⟩
  | .formatMessageToParts descriptor _ =>
      some ⟨formatter.locale, .parts, descriptor.pattern, formatter.messageId descriptor⟩
  | .namespaceFormat label pattern _ =>
      some ⟨formatter.locale, .text, pattern,
        Namespace.qualify ⟨formatter, label⟩ (formatter.derivedId pattern)⟩
  | .namespaceFormatMessage label descriptor _ =>
      some ⟨formatter.locale, .text, descriptor.pattern,
        Namespace.qualify ⟨formatter, label⟩ (formatter.messageId descriptor)⟩
  | .namespaceFormatToParts label pattern _ =>
      some ⟨formatter.locale, .parts, pattern,
        Namespace.qualify ⟨formatter, label⟩ (formatter.derivedId pattern)⟩
  | .patternOf _ _ | .setLocale _ | .editCatalogs _ | .clearCache => none

/-- The key of a call, if the catalogs give a pattern for it. -/
def callKey? (formatter : Formatter) (call : Call) : Option CacheKey :=
  (formatter.resolvePattern call.locale call.pattern call.id).1.toOption.map fun pattern =>
    ⟨call.locale, call.output, pattern⟩

def key? (formatter : Formatter) (request : Request) : Option CacheKey :=
  (formatter.call? request).bind formatter.callKey?

/-- The formatter that a request leaves behind. -/
def after (formatter : Formatter) : Request → Formatter
  | .setLocale locale => { formatter with locale }
  | .editCatalogs edit => { formatter with catalogs := edit formatter.catalogs }
  | _ => formatter

theorem reply_map {α β : Type} (answer : β → Answer) (f : α → β) (outcome : Outcome α) :
    formatter.reply answer (outcome.map f) = formatter.reply (answer ∘ f) outcome := by
  obtain ⟨result, cache, log⟩ := outcome
  cases result <;> rfl

theorem serve_of_call? (h : formatter.call? request = some call) :
    ∃ answer, ∀ cache, formatter.serve cache request = formatter.reply answer
      (formatter.resolve cache call.locale call.pattern call.id call.output) := by
  cases request <;> cases h <;> exact ⟨_, fun _ => reply_map _ _ _⟩

theorem serve_cache_of_call?_eq_none (h : formatter.call? request = none)
    (kept : request ≠ .clearCache) : (formatter.serve cache request).cache = cache := by
  cases request with
  | patternOf | setLocale | editCatalogs => rfl
  | clearCache => exact absurd rfl kept
  | _ => cases h

theorem serve_formatter : (formatter.serve cache request).formatter = formatter.after request := by
  cases request <;> rfl

theorem after_renderer : (formatter.after request).renderer = formatter.renderer := by
  cases request <;> rfl

theorem after_tags : (formatter.after request).tags = formatter.tags := by
  cases request <;> rfl

theorem prepare_congr (renderer : formatter.renderer = other.renderer)
    (tags : formatter.tags = other.tags) : formatter.prepare = other.prepare := by
  funext locale pattern
  rw [prepare, prepare, renderer, tags]

/-! ## What a request does to the cache -/

theorem isOk_map {ε α β : Type} (f : α → β) (result : Except ε α) :
    (result.map f).isOk = result.isOk := by
  cases result <;> rfl

theorem isOk_mapError {ε δ α : Type} (f : ε → δ) (result : Except ε α) :
    (result.mapError f).isOk = result.isOk := by
  cases result <;> rfl

def resolveCall (formatter : Formatter) (cache : Cache) (call : Call) : Outcome Prepared :=
  formatter.resolve cache call.locale call.pattern call.id call.output

theorem isSome_callKey? (h : (formatter.resolveCall cache call).result.isOk = true) :
    (formatter.callKey? call).isSome = true := by
  revert h
  rw [resolveCall, resolve, callKey?]
  rcases formatter.resolvePattern call.locale call.pattern call.id with ⟨error | pattern, log⟩
  · exact nofun
  · exact fun _ => rfl

theorem resolveCall_cache_cases (formatter : Formatter) (cache : Cache) (call : Call) :
    ((formatter.resolveCall cache call).cache = cache ∧
      (cache.enabled = true → (formatter.resolveCall cache call).result.isOk = true →
        ∀ key ∈ formatter.callKey? call, key ∈ cache.keys)) ∨
    (cache.enabled = true ∧ (formatter.resolveCall cache call).result.isOk = true ∧
      ∃ key prepared, formatter.callKey? call = some key ∧ key ∉ cache.keys ∧
        formatter.prepare key.locale key.pattern = .ok prepared ∧
        (formatter.resolveCall cache call).cache = cache.keep key prepared) := by
  rw [resolveCall, resolve, callKey?]
  rcases formatter.resolvePattern call.locale call.pattern call.id with ⟨error | pattern, log⟩
  · exact .inl ⟨rfl, fun _ => nofun⟩
  · obtain ⟨same, hit⟩ | ⟨enabled, missing, prepared, ready, fetched, kept⟩ :=
      cache.fetch_cases ⟨call.locale, call.output, pattern⟩ fun _ =>
        formatter.prepare call.locale pattern
    · refine .inl ⟨same, fun enabled succeeded key hk => ?_⟩
      rw [isOk_mapError] at succeeded
      exact Option.some.inj hk ▸ hit enabled succeeded
    · dsimp only
      rw [fetched, kept]
      exact .inr ⟨enabled, rfl, _, prepared, rfl, missing, ready, rfl⟩

theorem exists_serve_of_call? (h : formatter.call? request = some call) :
    ∃ answer : Prepared → Answer, ∀ cache,
      (formatter.serve cache request).result =
        (formatter.resolveCall cache call).result.map answer ∧
      (formatter.serve cache request).cache = (formatter.resolveCall cache call).cache := by
  obtain ⟨answer, serves⟩ := serve_of_call? h
  exact ⟨answer, fun cache => by rw [serves cache]; exact ⟨rfl, rfl⟩⟩

theorem isSome_key? (called : (formatter.call? request).isSome = true)
    (h : (formatter.serve cache request).result.isOk = true) :
    (formatter.key? request).isSome = true := by
  obtain ⟨call, called⟩ := Option.isSome_iff_exists.1 called
  obtain ⟨answer, serves⟩ := exists_serve_of_call? called
  rw [(serves cache).1, isOk_map] at h
  rw [key?, called, Option.bind_some, isSome_callKey? h]

/-- A request that does not clear the cache leaves it as it is, and if it is a call that succeeded
its key is there; or it is a call that succeeds and adds an entry under its key. -/
theorem serve_cache_cases (formatter : Formatter) (cache : Cache) (kept : request ≠ .clearCache) :
    ((formatter.serve cache request).cache = cache ∧
      (cache.enabled = true → (formatter.serve cache request).result.isOk = true →
        ∀ key ∈ formatter.key? request, key ∈ cache.keys)) ∨
    (cache.enabled = true ∧ (formatter.serve cache request).result.isOk = true ∧
      ∃ key prepared, formatter.key? request = some key ∧ key ∉ cache.keys ∧
        formatter.prepare key.locale key.pattern = .ok prepared ∧
        (formatter.serve cache request).cache = cache.keep key prepared) := by
  rw [key?]
  cases called : formatter.call? request with
  | none => exact .inl ⟨serve_cache_of_call?_eq_none called kept, fun _ _ => nofun⟩
  | some call =>
    obtain ⟨answer, serves⟩ := exists_serve_of_call? called
    rw [(serves cache).1, (serves cache).2, isOk_map]
    exact formatter.resolveCall_cache_cases cache call

theorem serve_disabled_cache : (formatter.serve .disabled request).cache = .disabled := by
  by_cases clears : request = .clearCache
  · rw [clears]
    rfl
  · obtain ⟨same, -⟩ | ⟨enabled, -⟩ := formatter.serve_cache_cases .disabled clears
    · exact same
    · cases enabled

end Formatter

/-! ## Sound caches -/

/-- Every entry of a cache is what its key prepares to. -/
def Cache.Sound (cache : Cache) (formatter : Formatter) : Prop :=
  ∀ key prepared, cache.get? key = some prepared →
    formatter.prepare key.locale key.pattern = .ok prepared

theorem Cache.sound_of_entries_eq_nil {cache : Cache} (h : cache.entries = [])
    (formatter : Formatter) : cache.Sound formatter := by
  intro key prepared found
  rw [Cache.get?, h] at found
  cases found

theorem Cache.Sound.congr {cache : Cache} {formatter other : Formatter}
    (h : cache.Sound formatter) (same : formatter.prepare = other.prepare) :
    cache.Sound other := by
  rw [Cache.Sound, ← same]
  exact h

theorem Cache.Sound.serve {cache : Cache} {formatter : Formatter} (h : cache.Sound formatter)
    (request : Request) : (formatter.serve cache request).cache.Sound formatter := by
  by_cases clears : request = .clearCache
  · subst clears
    exact Cache.sound_of_entries_eq_nil rfl formatter
  · obtain ⟨same, -⟩ | ⟨-, -, key, prepared, -, -, ready, kept⟩ :=
      formatter.serve_cache_cases cache clears
    · rwa [same]
    · rw [kept]
      intro other entry
      rw [Cache.get?_keep]
      split
      · rename_i same
        intro equal
        cases equal
        exact same ▸ ready
      · exact h other entry

namespace Formatter

variable {formatter : Formatter} {cache : Cache}

theorem resolveCall_result (sound : cache.Sound formatter) (call : Call) :
    (formatter.resolveCall cache call).result = (formatter.resolveCall .disabled call).result := by
  rw [resolveCall, resolveCall, resolve, resolve]
  rcases formatter.resolvePattern call.locale call.pattern call.id with ⟨error | pattern, log⟩
  · rfl
  · have fetched : (cache.fetch ⟨call.locale, call.output, pattern⟩ fun _ =>
        formatter.prepare call.locale pattern).result = formatter.prepare call.locale pattern :=
      Cache.fetch_result (sound ⟨call.locale, call.output, pattern⟩)
    simp only [fetched, Cache.fetch_disabled]

/-- A sound cache makes no difference to what is answered. -/
theorem serve_result (sound : cache.Sound formatter) (request : Request) :
    (formatter.serve cache request).result = (formatter.serve .disabled request).result := by
  cases called : formatter.call? request with
  | none =>
    cases request with
    | patternOf | setLocale | editCatalogs | clearCache => rfl
    | _ => cases called
  | some call =>
    obtain ⟨answer, serves⟩ := exists_serve_of_call? called
    rw [(serves cache).1, (serves .disabled).1, resolveCall_result sound]

end Formatter

end MessageFormat
