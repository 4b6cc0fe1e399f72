import MessageFormat.Proofs.Formatter.Session
import MessageFormat.Proofs.Rendering.Parts

/-!
# Ways to format

All ways to format a message come down to formatting a descriptor, to text or to parts. In a session
whose members share a cache only with those that prepare alike, what is answered for a descriptor is
what its pattern is parsed, prepared and rendered to, whatever the cache holds
(`Session.entry_points_agree`).
-/

namespace MessageFormat

/-! ## Formatting without a cache -/

namespace Formatter

variable {formatter : Formatter} {cache : Cache} {descriptor : Descriptor} {locale : String}
  {args : Args}

/-- The pattern of a descriptor, parsed, prepared for a locale and read in some way. -/
def formatted {α : Type} (formatter : Formatter) (descriptor : Descriptor) (locale : String)
    (read : Prepared → α) : Except FormatError α :=
  match (formatter.patternOf descriptor locale).1 with
  | .error error => .error error
  | .ok pattern =>
      match parse formatter.tags pattern with
      | .error fault => .error (.malformed locale (formatter.messageId descriptor) fault)
      | .ok message => .ok (read (formatter.renderer.prepare message [locale]))

theorem isOk_formatted_iff {α : Type} {read : Prepared → α} :
    (formatter.formatted descriptor locale read).isOk = true ↔
      ∃ pattern message, (formatter.patternOf descriptor locale).1 = .ok pattern ∧
        parse formatter.tags pattern = .ok message := by
  fun_cases formatted formatter descriptor locale read with
  | case1 error failed => simp [failed, Except.isOk, Except.toBool]
  | case2 pattern found fault malformed => simp [found, malformed, Except.isOk, Except.toBool]
  | case3 pattern found message parsed => simp [found, parsed, Except.isOk, Except.toBool]

/-- The text is that of the parts. -/
theorem formatted_text (formatter : Formatter) (descriptor : Descriptor) (locale : String)
    (args : Args) : formatter.formatted descriptor locale (·.text args) =
      (formatter.formatted descriptor locale (·.parts args)).map
        (Part.flattenAll formatter.renderer.localizer.undefinedText) := by
  rw [formatted, formatted]
  cases (formatter.patternOf descriptor locale).1 with
  | error error => rfl
  | ok pattern =>
    dsimp only
    cases parse formatter.tags pattern with
    | error fault => rfl
    | ok message =>
      dsimp only
      rw [Except.map, ← Prepared.flattenAll_parts]
      rfl

theorem resolve_result (sound : cache.Sound formatter) (descriptor : Descriptor) (locale : String)
    (output : Output) {α : Type} (read : Prepared → α) :
    ((formatter.resolve cache locale descriptor.pattern (formatter.messageId descriptor)
      output).map read).result = formatter.formatted descriptor locale read := by
  have anew := resolveCall_result sound
    ⟨locale, output, descriptor.pattern, formatter.messageId descriptor⟩
  rw [resolveCall, resolveCall] at anew
  rw [Outcome.map, anew, resolve, formatted, patternOf]
  rcases formatter.resolvePattern locale descriptor.pattern (formatter.messageId descriptor) with
    ⟨error | pattern, log⟩
  · rfl
  · dsimp only
    rw [Cache.fetch_disabled, prepare]
    cases parse formatter.tags pattern <;> rfl

/-- What is answered for a descriptor as text and as parts. -/
structure Formats (formatter : Formatter) (descriptor : Descriptor) (locale : String) (args : Args)
    (text : Except FormatError String) (parts : Except FormatError (List Part)) : Prop where
  text_eq : text = formatter.formatted descriptor locale (·.text args)
  parts_eq : parts = formatter.formatted descriptor locale (·.parts args)
  isOk_iff : text.isOk = true ↔ ∃ pattern message,
    (formatter.patternOf descriptor locale).1 = .ok pattern ∧
      parse formatter.tags pattern = .ok message
  flattens : text = parts.map (Part.flattenAll formatter.renderer.localizer.undefinedText)

theorem formats_formatMessage (sound : cache.Sound formatter) (descriptor : Descriptor)
    (args : Args) : formatter.Formats descriptor formatter.locale args
      (formatter.formatMessage cache descriptor args).result
      (formatter.formatMessageToParts cache descriptor args).result := by
  have text : (formatter.formatMessage cache descriptor args).result =
      formatter.formatted descriptor formatter.locale (·.text args) := resolve_result sound ..
  have parts : (formatter.formatMessageToParts cache descriptor args).result =
      formatter.formatted descriptor formatter.locale (·.parts args) := resolve_result sound ..
  rw [text, parts]
  exact ⟨rfl, rfl, isOk_formatted_iff, formatted_text ..⟩

end Formatter

/-! ## One cache of a session -/

def Member.setting (member : Member) : Nat × Renderer × Bool :=
  (member.cache, member.formatter.renderer, member.formatter.tags)

namespace Session

variable {session : Session} {n : Nat} {owner : Formatter}

/-- What requests leave alone in the members. -/
def settings (session : Session) : List (Nat × Renderer × Bool) :=
  session.members.map Member.setting

theorem Step.settings_next {step : Step} (h : step.session.members[step.index]? = some step.member) :
    step.next.settings = step.session.settings := by
  obtain ⟨inside, here⟩ := List.getElem?_eq_some_iff.1 h
  have bound : step.index < (step.session.members.map Member.setting).length := by
    rwa [List.length_map]
  have same : Member.setting { step.member with formatter := step.reply.formatter } =
      (step.session.members.map Member.setting)[step.index] := by
    rw [List.getElem_map, here, Member.setting, reply, Formatter.serve_formatter,
      Formatter.after_renderer, Formatter.after_tags, Member.setting]
  rw [settings, settings, next, List.map_set, same, List.set_getElem_self]

theorem settings_run (requests : List (Nat × Request)) :
    (session.run requests).1.settings = session.settings :=
  (run_induction requests (·.settings = session.settings) rfl
    fun _ _ h same => (Step.settings_next h).trans same).1

theorem SoundAt.run (start : session.SoundAt n owner) (requests : List (Nat × Request)) :
    (session.run requests).1.SoundAt n owner :=
  (run_induction requests (·.SoundAt n owner) start fun _ _ h => Step.soundAt_next h).1

theorem soundAt_of_settings (empty : ∀ cache ∈ session.caches, cache.entries = [])
    (alike : ∀ setting ∈ session.settings, setting.1 = n →
      setting.2 = (owner.renderer, owner.tags)) : session.SoundAt n owner where
  alike m hm same := by
    have equal := alike m.setting (List.mem_map_of_mem hm) same
    exact Formatter.prepare_congr (congrArg Prod.fst equal) (congrArg Prod.snd equal)
  sound := by
    refine Cache.sound_of_entries_eq_nil ?_ owner
    rw [cacheAt]
    cases h : session.caches[n]? with
    | none => rfl
    | some cache => exact empty cache (List.mem_of_getElem? h)

/-- All ways to format agree after any run, for a formatter that shares its cache only with members
that have its renderer and its setting of tags. -/
theorem entry_points_agree (session : Session) (requests : List (Nat × Request))
    (empty : ∀ cache ∈ session.caches, cache.entries = []) (formatter : Formatter) (n : Nat)
    (alike : ∀ m ∈ (session.run requests).1.members, m.cache = n →
      m.formatter.renderer = formatter.renderer ∧ m.formatter.tags = formatter.tags)
    (label pattern : String) (description : Option String) (descriptor : Descriptor)
    (args : Args) :
    let cache := (session.run requests).1.cacheAt n
    let space : Namespace := ⟨formatter, label⟩
    let bare : Descriptor := { pattern, description }
    let qualified (d : Descriptor) : Descriptor :=
      { d with id := some (label ++ "." ++ formatter.messageId d) }
    formatter.format cache pattern args = formatter.formatIn cache formatter.locale pattern args ∧
    formatter.format cache pattern args = formatter.formatMessage cache bare args ∧
    formatter.formatToParts cache pattern args = formatter.formatMessageToParts cache bare args ∧
    space.formatMessage cache descriptor args =
      formatter.formatMessage cache (qualified descriptor) args ∧
    space.format cache pattern args = formatter.formatMessage cache (qualified bare) args ∧
    space.formatToParts cache pattern args =
      formatter.formatMessageToParts cache (qualified bare) args ∧
    (∀ locale, (formatter.formatIn cache locale pattern args).result =
      formatter.formatted bare locale (·.text args)) ∧
    ∀ d, formatter.Formats d formatter.locale args (formatter.formatMessage cache d args).result
      (formatter.formatMessageToParts cache d args).result := by
  intro cache space bare qualified
  have start : session.SoundAt n formatter := by
    refine soundAt_of_settings empty fun setting listed same => ?_
    rw [← settings_run requests] at listed
    obtain ⟨m, hm, rfl⟩ := List.mem_map.1 listed
    exact Prod.ext_iff.2 (alike m hm same)
  have sound : cache.Sound formatter := (start.run requests).sound
  exact ⟨rfl, rfl, rfl, rfl, rfl, rfl, fun locale => Formatter.resolve_result sound bare locale ..,
    fun d => Formatter.formats_formatMessage sound d args⟩

theorem entry_points_agree_menu :
    let german : Formatter := { locale := "de", scheme := .literal, missing := .fail }
    let tagged : Formatter := { scheme := .literal, tags := true }
    let session : Session := ⟨[⟨german, 0⟩, ⟨tagged, 1⟩, ⟨german, 0⟩], [{}, {}]⟩
    let insert (catalogs : Catalogs) : Catalogs :=
      catalogs.insert "de" "menu.Hi" (.pattern "Hallo \x7bname\x7d!")
    let requests : List (Nat × Request) :=
      [(2, .format "Hallo \x7bname\x7d!" []), (0, .editCatalogs insert), (1, .format "<b>Hi</b>" []),
        (2, .setLocale "en"), (0, .namespaceFormat "menu" "Hi" [])]
    let final := (session.run requests).1
    let formatter : Formatter := { german with catalogs := insert .empty }
    let space : Namespace := ⟨formatter, "menu"⟩
    let args : Args := [("name", .string "Ana")]
    final.members = [⟨formatter, 0⟩, ⟨tagged, 1⟩, ⟨{ german with locale := "en" }, 0⟩] ∧
      (final.cacheAt 0).keys = [⟨"de", .text, "Hallo \x7bname\x7d!"⟩] ∧
      formatter.Formats { id := some "menu.Hi", pattern := "Hi" } "de" args
        (space.format (final.cacheAt 0) "Hi" args).result
        (space.formatToParts (final.cacheAt 0) "Hi" args).result := by
  intro german tagged session insert requests final formatter space args
  have members : final.members =
      [⟨formatter, 0⟩, ⟨tagged, 1⟩, ⟨{ german with locale := "en" }, 0⟩] := rfl
  have alike : ∀ m ∈ final.members, m.cache = 0 →
      m.formatter.renderer = formatter.renderer ∧ m.formatter.tags = formatter.tags := by
    simp [members, german, formatter]
  obtain ⟨-, -, -, -, text, parts, -, formats⟩ := entry_points_agree session requests
    (by simp [session]) formatter 0 alike "menu" "Hi" none { pattern := "Hi" } args
  refine ⟨members, by cbv, ?_⟩
  rw [text, parts]
  exact formats _

end Session

end MessageFormat
