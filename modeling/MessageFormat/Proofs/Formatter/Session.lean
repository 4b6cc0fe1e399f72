import MessageFormat.Proofs.Formatter.Requests
import Mathlib

/-!
# Runs of a session

A run of a session is a list of steps, one for each request to a member (`Session.run_replies`). A
cache that was empty holds the keys of the calls that succeeded and nothing else, and a call that
fails leaves it alone (`Session.run_caches`). Members that share a cache and prepare alike are
answered as if nothing were kept (`Session.run_eq_of_disabled`).
-/

namespace MessageFormat

namespace Session

/-! ## Steps -/

structure Step where
  session : Session
  index : Nat
  member : Member
  request : Request

namespace Step

variable (step : Step)

def reply : Reply :=
  step.member.formatter.serve (step.session.cacheAt step.member.cache) step.request

def next : Session where
  members := step.session.members.set step.index
    { step.member with formatter := step.reply.formatter }
  caches := step.session.caches.set step.member.cache step.reply.cache

/-- The key of the call, if it succeeded. -/
def key? : Option CacheKey :=
  if step.reply.result.isOk then step.member.formatter.key? step.request else none

end Step

/-- The steps of a run; requests to no member are passed over. -/
def steps (session : Session) : List (Nat × Request) → List Step
  | [] => []
  | (index, request) :: rest =>
      match session.members[index]? with
      | none => session.steps rest
      | some member =>
          ⟨session, index, member, request⟩ ::
            (Step.mk session index member request).next.steps rest

variable {session : Session} {index : Nat} {member : Member} {request : Request}
  {requests : List (Nat × Request)}

theorem serve?_eq_none (h : session.members[index]? = none) :
    session.serve? index request = none := by
  rw [serve?, h]

theorem serve?_eq_some (step : Step)
    (h : step.session.members[step.index]? = some step.member) :
    step.session.serve? step.index step.request = some (step.next, step.reply) := by
  rw [serve?, h]
  rfl

theorem run_passed (h : session.members[index]? = none) :
    session.run ((index, request) :: requests) = session.run requests := by
  rw [run, serve?_eq_none h]

theorem run_served (step : Step) (h : step.session.members[step.index]? = some step.member) :
    step.session.run ((step.index, step.request) :: requests) =
      ((step.next.run requests).1, step.reply :: (step.next.run requests).2) := by
  rw [run, serve?_eq_some step h]

theorem run_replies (session : Session) (requests : List (Nat × Request)) :
    (session.run requests).2 = (session.steps requests).map Step.reply := by
  fun_induction Session.steps session requests with
  | case1 session => rfl
  | case2 session index request rest h ih => rw [run_passed h, ih]
  | case3 session index request rest member h ih =>
    rw [run_served ⟨session, index, member, request⟩ h, List.map_cons, ih]

theorem mem_of_mem_steps {step : Step} (h : step ∈ session.steps requests) :
    (step.index, step.request) ∈ requests := by
  fun_induction Session.steps session requests with
  | case1 session => cases h
  | case2 session index request rest _ ih => exact List.mem_cons_of_mem _ (ih h)
  | case3 session index request rest member _ ih =>
    rcases List.mem_cons.1 h with rfl | later
    · exact List.mem_cons_self
    · exact List.mem_cons_of_mem _ (ih later)

/-- What holds at the start and is kept by every step holds throughout a run. -/
theorem run_induction (requests : List (Nat × Request)) (P : Session → Prop) (start : P session)
    (keeps : ∀ step : Step, (step.index, step.request) ∈ requests →
      step.session.members[step.index]? = some step.member → P step.session → P step.next) :
    P (session.run requests).1 ∧ ∀ step ∈ session.steps requests, P step.session := by
  fun_induction Session.steps session requests with
  | case1 session => exact ⟨start, List.forall_mem_nil _⟩
  | case2 session index request rest h ih =>
    rw [run_passed h]
    exact ih start fun step hs => keeps step (List.mem_cons_of_mem _ hs)
  | case3 session index request rest member h ih =>
    have first := keeps ⟨session, index, member, request⟩ List.mem_cons_self h start
    rw [run_served ⟨session, index, member, request⟩ h, List.forall_mem_cons]
    obtain ⟨final, others⟩ := ih first fun step hs => keeps step (List.mem_cons_of_mem _ hs)
    exact ⟨final, start, others⟩

/-! ## Caches after a step -/

namespace Step

variable {step : Step} {n : Nat} {key : CacheKey} {prepared : Prepared}

theorem key?_eq_some_iff : step.key? = some key ↔
    step.reply.result.isOk = true ∧ step.member.formatter.key? step.request = some key := by
  rw [key?, Option.ite_none_right_eq_some]

theorem isSome_key? (called : (step.member.formatter.call? step.request).isSome = true) :
    step.key?.isSome = step.reply.result.isOk := by
  rw [key?]
  split
  · rename_i succeeded
    rw [succeeded, Formatter.isSome_key? called succeeded]
  · rename_i failed
    rw [Bool.eq_false_iff.2 failed, Option.isSome_none]

theorem cacheAt_next (step : Step) (n : Nat) :
    step.next.cacheAt n =
      if n = step.member.cache then step.reply.cache else step.session.cacheAt n := by
  rw [cacheAt, next, List.getElem?_set]
  by_cases same : n = step.member.cache
  · rw [if_pos same, if_pos same.symm]
    split
    · rfl
    · -- A cache that does not exist keeps nothing, before and after.
      rename_i outside
      have absent : step.session.cacheAt step.member.cache = .disabled := by
        rw [cacheAt, List.getElem?_eq_none (Nat.not_lt.1 outside)]
        rfl
      rw [reply, absent, Formatter.serve_disabled_cache]
      rfl
  · rw [if_neg same, if_neg (Ne.symm same)]
    rfl

theorem caches_next (same : step.reply.cache = step.session.cacheAt step.member.cache) :
    step.next.caches = step.session.caches := by
  refine List.ext_getElem? fun n => ?_
  rw [next, List.getElem?_set]
  split
  · rename_i here
    rw [same, cacheAt, here]
    split
    · rename_i inside
      rw [List.getElem?_eq_getElem inside, Option.getD_some]
    · rename_i outside
      exact (List.getElem?_eq_none (Nat.not_lt.1 outside)).symm
  · rfl

/-- What a step leaves of a cache: the cache itself, and if the step is a call to it that succeeded
its key is there; or an entry more, under the key of the call. -/
theorem cacheAt_next_cases (step : Step) (kept : step.request ≠ .clearCache) (n : Nat) :
    (step.next.cacheAt n = step.session.cacheAt n ∧
      ((step.session.cacheAt n).enabled = true → step.member.cache = n →
        ∀ key ∈ step.key?, key ∈ (step.session.cacheAt n).keys)) ∨
    (step.member.cache = n ∧ (step.session.cacheAt n).enabled = true ∧
      step.reply.result.isOk = true ∧ ∃ key prepared, step.key? = some key ∧
        key ∉ (step.session.cacheAt n).keys ∧
        step.next.cacheAt n = (step.session.cacheAt n).keep key prepared) := by
  rw [cacheAt_next]
  by_cases same : n = step.member.cache
  · subst same
    rw [if_pos rfl]
    obtain ⟨unchanged, hit⟩ | ⟨enabled, succeeded, key, prepared, hk, missing, -, added⟩ :=
      step.member.formatter.serve_cache_cases (step.session.cacheAt step.member.cache) kept
    · refine .inl ⟨unchanged, fun enabled _ key hk => ?_⟩
      obtain ⟨succeeded, hk⟩ := key?_eq_some_iff.1 hk
      exact hit enabled succeeded key hk
    · exact .inr ⟨rfl, enabled, succeeded, key, prepared, key?_eq_some_iff.2 ⟨succeeded, hk⟩,
        missing, added⟩
  · rw [if_neg same]
    exact .inl ⟨rfl, fun _ here => absurd here.symm same⟩

theorem enabled_next (kept : step.request ≠ .clearCache) :
    (step.next.cacheAt n).enabled = (step.session.cacheAt n).enabled := by
  obtain ⟨unchanged, -⟩ | ⟨-, -, -, key, prepared, -, -, added⟩ := step.cacheAt_next_cases kept n
  · rw [unchanged]
  · rw [added, Cache.keep]

theorem nodup_keys_next (kept : step.request ≠ .clearCache)
    (nodup : (step.session.cacheAt n).keys.Nodup) : (step.next.cacheAt n).keys.Nodup := by
  obtain ⟨unchanged, -⟩ | ⟨-, -, -, key, prepared, -, missing, added⟩ :=
    step.cacheAt_next_cases kept n
  · rwa [unchanged]
  · rw [added, Cache.keys_keep]
    exact List.nodup_cons.2 ⟨missing, nodup⟩

theorem mem_keys_next (kept : step.request ≠ .clearCache)
    (enabled : (step.session.cacheAt n).enabled = true) :
    key ∈ (step.next.cacheAt n).keys ↔
      key ∈ (step.session.cacheAt n).keys ∨ step.member.cache = n ∧ step.key? = some key := by
  obtain ⟨unchanged, hit⟩ | ⟨here, -, -, added, prepared, hk, -, next⟩ :=
    step.cacheAt_next_cases kept n
  · rw [unchanged, iff_self_or]
    exact fun ⟨here, hk⟩ => hit enabled here key hk
  · rw [next, Cache.keys_keep, List.mem_cons, hk, Option.some.injEq, or_comm]
    simp only [here, true_and, eq_comm]

theorem get?_next (kept : step.request ≠ .clearCache)
    (h : (step.session.cacheAt n).get? key = some prepared) :
    (step.next.cacheAt n).get? key = some prepared := by
  obtain ⟨unchanged, -⟩ | ⟨-, -, -, added, entry, -, missing, next⟩ :=
    step.cacheAt_next_cases kept n
  · rwa [unchanged]
  · rw [next, Cache.get?_keep, if_neg, h]
    rintro rfl
    rw [Cache.get?_eq_none_iff.2 missing] at h
    cases h

theorem caches_next_of_not_isOk (kept : step.request ≠ .clearCache)
    (failed : step.reply.result.isOk = false) : step.next.caches = step.session.caches := by
  refine caches_next ?_
  obtain ⟨unchanged, -⟩ | ⟨-, succeeded, -⟩ := step.member.formatter.serve_cache_cases
    (step.session.cacheAt step.member.cache) kept
  · exact unchanged
  · exact absurd (succeeded.symm.trans failed) nofun

theorem disabled_next (h : step.session.cacheAt n = .disabled) :
    step.next.cacheAt n = .disabled := by
  rw [cacheAt_next]
  split
  · rename_i same
    rw [reply, ← same, h, Formatter.serve_disabled_cache]
  · exact h

end Step

/-! ## Keys after a run -/

theorem mem_keys_run {n : Nat} {key : CacheKey} (kept : ∀ r ∈ requests, r.2 ≠ .clearCache)
    (enabled : (session.cacheAt n).enabled = true) :
    key ∈ ((session.run requests).1.cacheAt n).keys ↔ key ∈ (session.cacheAt n).keys ∨
      ∃ step ∈ session.steps requests, step.member.cache = n ∧ step.key? = some key := by
  fun_induction Session.steps session requests with
  | case1 session => simp [run]
  | case2 session index request rest h ih =>
    rw [run_passed h]
    exact ih (List.forall_mem_cons.1 kept).2 enabled
  | case3 session index request rest member h ih =>
    obtain ⟨here, later⟩ := List.forall_mem_cons.1 kept
    let step : Step := ⟨session, index, member, request⟩
    have now : step.request ≠ .clearCache := here
    have stays : (step.next.cacheAt n).enabled = true := (Step.enabled_next now).trans enabled
    rw [run_served step h, ih later stays, Step.mem_keys_next now enabled, or_assoc,
      List.exists_mem_cons_iff]

/-- A run of requests that do not clear caches. A cache that keeps messages and was empty holds,
each once, the keys of the calls to it that succeeded. No step replaces an entry, a call that fails
leaves all caches as they are, and a disabled cache stays empty. -/
theorem run_caches (session : Session) (requests : List (Nat × Request))
    (kept : ∀ r ∈ requests, r.2 ≠ .clearCache) :
    let steps := session.steps requests
    let final := (session.run requests).1
    (session.run requests).2 = steps.map Step.reply ∧
    (∀ n, (session.cacheAt n).enabled = true → (session.cacheAt n).entries = [] →
      (final.cacheAt n).keys.Nodup ∧ ∀ key, key ∈ (final.cacheAt n).keys ↔
        ∃ step ∈ steps, step.member.cache = n ∧ step.key? = some key) ∧
    (∀ step ∈ steps,
      ((step.member.formatter.call? step.request).isSome = true →
        step.key?.isSome = step.reply.result.isOk) ∧
      (∀ n key prepared, (step.session.cacheAt n).get? key = some prepared →
        (step.next.cacheAt n).get? key = some prepared) ∧
      (step.reply.result.isOk = false → step.next.caches = step.session.caches)) ∧
    ∀ n, session.cacheAt n = .disabled →
      final.cacheAt n = .disabled ∧ ∀ step ∈ steps, step.next.cacheAt n = .disabled := by
  intro steps final
  have keeps : ∀ step ∈ steps, step.request ≠ .clearCache :=
    fun step hs => kept _ (mem_of_mem_steps hs)
  refine ⟨run_replies session requests, fun n enabled empty => ?_, fun step hs =>
    ⟨Step.isSome_key?, fun n key prepared => Step.get?_next (keeps step hs),
      Step.caches_next_of_not_isOk (keeps step hs)⟩, fun n disabled => ?_⟩
  · have none : (session.cacheAt n).keys = [] := by rw [Cache.keys, empty, List.map_nil]
    have nodup := run_induction requests (fun s => (s.cacheAt n).keys.Nodup) (none ▸ List.nodup_nil)
      fun step hr _ => Step.nodup_keys_next (kept _ hr)
    refine ⟨nodup.1, fun key => ?_⟩
    rw [mem_keys_run kept enabled, none, or_iff_right List.not_mem_nil]
  · have throughout := run_induction requests (fun s => s.cacheAt n = .disabled) disabled
      fun step _ _ => Step.disabled_next
    exact ⟨throughout.1, fun step hs => Step.disabled_next (throughout.2 step hs)⟩

theorem run_caches_shared :
    let english : Formatter := { scheme := .literal }
    let german : Formatter := { locale := "de", scheme := .literal, missing := .fail }
    let session : Session := ⟨[⟨english, 0⟩, ⟨german, 0⟩, ⟨german, 1⟩], [{}, .disabled]⟩
    let requests : List (Nat × Request) :=
      [(0, .format "Hi" []), (0, .format "\x7b" []),
        (1, .editCatalogs (·.insert "de" "x" (.pattern "Hi"))), (1, .format "Hi" []),
        (1, .formatMessage ⟨some "x", "X", none⟩ []), (0, .formatIn "de" "Hi" []),
        (2, .format "Hi" [])]
    let final := (session.run requests).1
    (∀ r ∈ requests, r.2 ≠ .clearCache) ∧
      (session.run requests).2.map (·.result.isOk) = [true, false, true, false, true, true, true] ∧
      (final.cacheAt 0).keys = [⟨"de", .text, "Hi"⟩, ⟨"en", .text, "Hi"⟩] ∧
      (∀ key, key ∈ (final.cacheAt 0).keys ↔
        ∃ step ∈ session.steps requests, step.member.cache = 0 ∧ step.key? = some key) ∧
      final.cacheAt 1 = .disabled := by
  intro english german session requests final
  have kept : ∀ r ∈ requests, r.2 ≠ .clearCache := by simp [requests]
  obtain ⟨-, keys, -, disabled⟩ := run_caches session requests kept
  exact ⟨kept, by cbv, by cbv, (keys 0 rfl rfl).2, (disabled 1 rfl).1⟩

/-! ## Runs without caches -/

def formatters (session : Session) : List Formatter :=
  session.members.map Member.formatter

theorem map_getElem?_members (session : Session) (n : Nat) :
    session.members[n]?.map Member.formatter = session.formatters[n]? :=
  List.getElem?_map.symm

/-- A cache holds what a formatter would prepare, and so would all members that have that cache. -/
structure SoundAt (session : Session) (n : Nat) (owner : Formatter) : Prop where
  alike : ∀ m ∈ session.members, m.cache = n → m.formatter.prepare = owner.prepare
  sound : (session.cacheAt n).Sound owner

/-- Every member finds in its cache what it would prepare, and so do all that share it. -/
structure Sound (session : Session) : Prop where
  alike : ∀ m ∈ session.members, ∀ o ∈ session.members, m.cache = o.cache →
    m.formatter.prepare = o.formatter.prepare
  sound : ∀ m ∈ session.members, (session.cacheAt m.cache).Sound m.formatter

theorem cacheAt_of_disabled (disabled : ∀ cache ∈ session.caches, cache = .disabled) (n : Nat) :
    session.cacheAt n = .disabled := by
  rw [cacheAt]
  cases h : session.caches[n]? with
  | none => rfl
  | some cache => exact disabled cache (List.mem_of_getElem? h)

namespace Step

variable {step : Step} {n : Nat} {owner : Formatter}

theorem formatters_next (step : Step) : step.next.formatters =
    step.session.formatters.set step.index (step.member.formatter.after step.request) := by
  rw [formatters, next, List.map_set, reply, Formatter.serve_formatter, formatters]

theorem caches_next_disabled (disabled : ∀ cache ∈ step.session.caches, cache = .disabled) :
    ∀ cache ∈ step.next.caches, cache = .disabled := by
  intro cache hc
  rcases List.mem_or_eq_of_mem_set hc with here | rfl
  · exact disabled cache here
  · rw [reply, cacheAt_of_disabled disabled, Formatter.serve_disabled_cache]

/-- A member after a step prepares as a member before it that had the same cache. -/
theorem exists_of_mem_next (h : step.session.members[step.index]? = some step.member) {m : Member}
    (hm : m ∈ step.next.members) : ∃ o ∈ step.session.members, o.cache = m.cache ∧
      o.formatter.prepare = m.formatter.prepare := by
  rcases List.mem_or_eq_of_mem_set hm with here | rfl
  · exact ⟨m, here, rfl, rfl⟩
  · refine ⟨step.member, List.mem_of_getElem? h, rfl, ?_⟩
    rw [reply, Formatter.serve_formatter]
    exact Formatter.prepare_congr Formatter.after_renderer.symm Formatter.after_tags.symm

theorem soundAt_next (h : step.session.members[step.index]? = some step.member)
    (start : step.session.SoundAt n owner) : step.next.SoundAt n owner where
  alike m hm same := by
    obtain ⟨o, ho, cache, prepares⟩ := exists_of_mem_next h hm
    rw [← prepares]
    exact start.alike o ho (cache.trans same)
  sound := by
    rw [cacheAt_next]
    split
    · -- The member that was served has the cache, so it prepares as its owner.
      rename_i same
      have prepares := start.alike _ (List.mem_of_getElem? h) same.symm
      have sound := start.sound.congr prepares.symm
      rw [same] at sound
      exact (sound.serve step.request).congr prepares
    · exact start.sound

theorem sound_next (h : step.session.members[step.index]? = some step.member)
    (sound : step.session.Sound) : step.next.Sound where
  alike m hm o ho same := by
    obtain ⟨m', hm', cache, prepares⟩ := exists_of_mem_next h hm
    obtain ⟨o', ho', cache', prepares'⟩ := exists_of_mem_next h ho
    rw [← prepares, ← prepares']
    exact sound.alike m' hm' o' ho' (by rw [cache, cache', same])
  sound m hm := by
    obtain ⟨m', hm', cache, prepares⟩ := exists_of_mem_next h hm
    have start : step.session.SoundAt m'.cache m'.formatter :=
      ⟨fun o ho same => sound.alike o ho m' hm' same, sound.sound m' hm'⟩
    rw [← cache]
    exact (soundAt_next h start).sound.congr prepares

theorem result_of_disabled (h : step.session.members[step.index]? = some step.member)
    (sound : step.session.Sound) (other : Step) (request : other.request = step.request)
    (formatter : other.member.formatter = step.member.formatter)
    (disabled : ∀ cache ∈ other.session.caches, cache = .disabled) :
    other.reply.result = step.reply.result := by
  have served := Formatter.serve_result (sound.sound _ (List.mem_of_getElem? h)) step.request
  rw [reply, reply, served, cacheAt_of_disabled disabled, formatter, request]

end Step

theorem Sound.run_eq (sound : session.Sound) {other : Session}
    (same : other.formatters = session.formatters)
    (disabled : ∀ cache ∈ other.caches, cache = .disabled) (requests : List (Nat × Request)) :
    (session.run requests).2.map Reply.result = (other.run requests).2.map Reply.result ∧
      (session.run requests).1.formatters = (other.run requests).1.formatters := by
  -- The other session follows step by step: what carries the induction is that both have the same
  -- formatters, that the caches of the first are sound and that those of the second stay disabled.
  fun_induction Session.steps session requests generalizing other with
  | case1 session => exact ⟨rfl, same.symm⟩
  | case2 session index request rest h ih =>
    have passed : other.members[index]? = none := by
      rw [← Option.map_eq_none_iff, map_getElem?_members, same, ← map_getElem?_members, h,
        Option.map_none]
    rw [run_passed h, run_passed passed]
    exact ih sound same disabled
  | case3 session index request rest member h ih =>
    obtain ⟨twin, h', formatter⟩ : ∃ twin, other.members[index]? = some twin ∧
        twin.formatter = member.formatter := by
      rw [← Option.map_eq_some_iff, map_getElem?_members, same, ← map_getElem?_members, h,
        Option.map_some]
    let step : Step := ⟨session, index, member, request⟩
    let plain : Step := ⟨other, index, twin, request⟩
    have formatters : plain.next.formatters = step.next.formatters := by
      rw [Step.formatters_next, Step.formatters_next, formatter, same]
    obtain ⟨results, state⟩ := ih (Step.sound_next h sound) formatters
      (Step.caches_next_disabled disabled)
    have answered : plain.reply.result = step.reply.result :=
      Step.result_of_disabled h sound plain rfl formatter disabled
    rw [run_served step h, run_served plain h', List.map_cons, List.map_cons, answered, results]
    exact ⟨rfl, state⟩

/-- Members that share a cache, with one renderer and one setting of tags, are answered as in a
session with the same formatters in which nothing is kept, and end in the same state. -/
theorem run_eq_of_disabled (session other : Session) (requests : List (Nat × Request))
    (empty : ∀ cache ∈ session.caches, cache.entries = [])
    (alike : ∀ m ∈ session.members, ∀ o ∈ session.members, m.cache = o.cache →
      m.formatter.renderer = o.formatter.renderer ∧ m.formatter.tags = o.formatter.tags)
    (same : other.formatters = session.formatters)
    (disabled : ∀ cache ∈ other.caches, cache = .disabled) :
    (session.run requests).2.map Reply.result = (other.run requests).2.map Reply.result ∧
      (session.run requests).1.formatters = (other.run requests).1.formatters := by
  have sound : session.Sound := by
    refine ⟨fun m hm o ho same => ?_, fun m _ => Cache.sound_of_entries_eq_nil ?_ _⟩
    · obtain ⟨renderer, tags⟩ := alike m hm o ho same
      exact Formatter.prepare_congr renderer tags
    · rw [cacheAt]
      cases h : session.caches[m.cache]? with
      | none => rfl
      | some cache => exact empty cache (List.mem_of_getElem? h)
  exact sound.run_eq same disabled requests

theorem run_eq_of_disabled_shared :
    let english : Formatter := { scheme := .literal }
    let german : Formatter := { locale := "de", scheme := .literal, missing := .fail }
    let session : Session := ⟨[⟨english, 0⟩, ⟨german, 0⟩], [{}]⟩
    let other : Session := ⟨[⟨english, 0⟩, ⟨german, 1⟩], [.disabled, .disabled]⟩
    let requests : List (Nat × Request) :=
      [(0, .formatIn "de" "Hi" []), (1, .editCatalogs (·.insert "de" "Hi" (.pattern "Hallo"))),
        (1, .format "Hi" []), (0, .setLocale "de"), (0, .format "Hallo" []), (0, .format "\x7b" []),
        (1, .format "Hallo" [])]
    (∀ cache ∈ session.caches, cache.entries = []) ∧
      (∀ m ∈ session.members, ∀ o ∈ session.members, m.cache = o.cache →
        m.formatter.renderer = o.formatter.renderer ∧ m.formatter.tags = o.formatter.tags) ∧
      other.formatters = session.formatters ∧ (∀ cache ∈ other.caches, cache = .disabled) ∧
      ((session.run requests).1.cacheAt 0).keys = [⟨"de", .text, "Hallo"⟩, ⟨"de", .text, "Hi"⟩] ∧
      (session.run requests).2.map Reply.result = (other.run requests).2.map Reply.result := by
  intro english german session other requests
  have empty : ∀ cache ∈ session.caches, cache.entries = [] := List.forall_mem_singleton.2 rfl
  have alike : ∀ m ∈ session.members, ∀ o ∈ session.members, m.cache = o.cache →
      m.formatter.renderer = o.formatter.renderer ∧ m.formatter.tags = o.formatter.tags := by
    simp [session, english, german]
  have disabled : ∀ cache ∈ other.caches, cache = .disabled := by simp [other]
  exact ⟨empty, alike, rfl, disabled, by cbv,
    (run_eq_of_disabled session other requests empty alike rfl disabled).1⟩

end Session

end MessageFormat
