import MessageFormat.Proofs.Rendering.Direct

/-!
# What is asked of a localizer

Preparing a message asks its localizer for what the placeholders need (`Message.needs`), from left
to right: once for each style, where it is needed first, and three times for every duration. The
table of known styles is sound at every point of the walk (`Bindings.Sound`), so that a placeholder
is never given the formatting function of another style (`Renderer.prepares_elements`).
-/

namespace MessageFormat

/-! ## Needs -/

/-- What a placeholder or a number mark needs: the formatting function of a style, or those of a
duration. -/
inductive Need where
  | style (service : Service) (text : String)
  | duration
deriving DecidableEq, Repr

/-- The need of a simple placeholder. No style is the same as an empty one. -/
def SimpleType.need (style : Option String) : SimpleType → Need
  | .number | .ordinal | .spellout => .style .number (style.getD "")
  | .date => .style .date (style.getD "")
  | .time => .style .time (style.getD "")
  | .duration => .duration

mutual

def Element.needs : Element → List Need
  | .text _ => []
  | .hash => [.style .number ""]
  | .placeholder _ kind => kind.needs

def Kind.needs : Kind → List Need
  | .argument => []
  | .simple type style => [type.need style]
  | .plural _ _ cases => casesNeeds cases
  | .select cases => casesNeeds cases
  | .custom _ _ => []
  | .tag children => elementsNeeds children
  | .emptyTag => []

def Case.needs : Case → List Need
  | ⟨_, message⟩ => elementsNeeds message

def casesNeeds : List Case → List Need
  | [] => []
  | c :: cs => c.needs ++ casesNeeds cs

def elementsNeeds : List Element → List Need
  | [] => []
  | e :: es => e.needs ++ elementsNeeds es

end

/-- The needs of a message from left to right, repeated ones included. -/
def Message.needs (message : Message) : List Need :=
  elementsNeeds message

def StyleTable.resolve (table : StyleTable) (style : Option String) : Service → ServiceOptions
  | .number => .number (table.resolveNumber style)
  | .date => .dateTime (table.resolveDate style)
  | .time => .dateTime (table.resolveTime style)

theorem StyleTable.resolve_getD (table : StyleTable) (style : Option String) (service : Service) :
    table.resolve (some (style.getD "")) service = table.resolve style service := by
  cases style <;> cases service <;> rfl

namespace Need

def key? : Need → Option (Service × String)
  | style service text => some (service, text)
  | duration => none

def requests (styles : StyleTable) (locale : String) : Need → List BindRequest
  | style service text => [⟨service, locale, styles.resolve (some text) service⟩]
  | duration =>
      [⟨.number, locale, .number Duration.leadingOptions⟩,
       ⟨.number, locale, .number Duration.minutesOptions⟩,
       ⟨.number, locale, .number Duration.secondsOptions⟩]

/-- The needs without the styles that are known or were needed before. -/
def fresh (known : List (Service × String)) : List Need → List Need
  | [] => []
  | style service text :: needs =>
      if (service, text) ∈ known then fresh known needs
      else style service text :: fresh ((service, text) :: known) needs
  | duration :: needs => duration :: fresh known needs

variable {need : Need} {needs : List Need} {known : List (Service × String)}

theorem mem_fresh (h : need ∈ needs) (unknown : ∀ key ∈ need.key?, key ∉ known) :
    need ∈ fresh known needs := by
  induction needs generalizing known with
  | nil => cases h
  | cons first needs ih =>
    cases first with
    | duration =>
      rw [fresh]
      rcases List.mem_cons.1 h with rfl | later
      · exact List.mem_cons_self
      · exact List.mem_cons_of_mem _ (ih later unknown)
    | style service text =>
      rw [fresh]
      rcases List.mem_cons.1 h with rfl | later
      · rw [if_neg (unknown _ rfl)]
        exact List.mem_cons_self
      · split
        · exact ih later unknown
        · by_cases same : need = style service text
          · exact same ▸ List.mem_cons_self
          · refine List.mem_cons_of_mem _ (ih later fun key hk => ?_)
            rw [List.mem_cons, not_or]
            refine ⟨?_, unknown key hk⟩
            rintro rfl
            cases need with
            | duration => cases hk
            | style _ _ => cases hk; exact same rfl

/-- Every style is left once, at its first place. -/
theorem filterMap_key?_fresh (known : List (Service × String)) (needs : List Need) :
    (fresh known needs).filterMap key? =
      ((needs.filterMap key?).filter fun key => key ∉ known).eraseDups := by
  induction needs generalizing known with
  | nil => rfl
  | cons first needs ih =>
    cases first with
    | duration => exact ih known
    | style service text =>
      rw [fresh]
      split
      · rename_i present
        simpa [key?, present] using ih known
      · rename_i absent
        simp only [key?, List.filterMap_cons, List.filter_cons, absent, not_false_iff,
          decide_true, if_true, List.eraseDups_cons, List.filter_filter, ih]
        congr 3
        funext key
        by_cases same : key = (service, text) <;> simp [same]

theorem count_duration_fresh (known : List (Service × String)) (needs : List Need) :
    (fresh known needs).count duration = needs.count duration := by
  induction needs generalizing known with
  | nil => rfl
  | cons first needs ih =>
    cases first with
    | duration => simp [fresh, ih]
    | style service text =>
      rw [fresh]
      split <;> simp [ih]

end Need

/-! ## Known styles -/

namespace Bindings

variable (renderer : Renderer) (locale : String)

/-- A known formatting function is the one that the localizer binds for its style. -/
def Sound (bindings : Bindings) : Prop :=
  ∀ service text formatting, bindings.known.lookup (service, text) = some formatting →
    formatting =
      renderer.localizer.bind ⟨service, locale, renderer.styles.resolve (some text) service⟩

def serve (bindings : Bindings) : Need → Bindings
  | .style service text =>
      match bindings.known.lookup (service, text) with
      | some _ => bindings
      | none =>
          let request : BindRequest :=
            ⟨service, locale, renderer.styles.resolve (some text) service⟩
          { known := ((service, text), renderer.localizer.bind request) :: bindings.known
            requests := bindings.requests ++ [request] }
  | .duration =>
      { bindings with
        requests := bindings.requests ++ Need.requests renderer.styles locale .duration }

def serveAll (bindings : Bindings) (needs : List Need) : Bindings :=
  needs.foldl (serve renderer locale) bindings

variable {renderer locale} {bindings : Bindings}

theorem serveAll_append (bindings : Bindings) (needs more : List Need) :
    serveAll renderer locale bindings (needs ++ more) =
      serveAll renderer locale (serveAll renderer locale bindings needs) more :=
  List.foldl_append

theorem sound_empty : Sound renderer locale {} := nofun

theorem Sound.serve (h : Sound renderer locale bindings) (need : Need) :
    Sound renderer locale (serve renderer locale bindings need) := by
  cases need with
  | duration => exact h
  | style service text =>
    rw [Bindings.serve]
    split
    · exact h
    · intro service' text' formatting found
      rw [List.lookup_cons] at found
      split at found
      · rename_i same
        cases eq_of_beq same
        exact (Option.some.inj found).symm
      · exact h service' text' formatting found

theorem Sound.serveAll (h : Sound renderer locale bindings) (needs : List Need) :
    Sound renderer locale (serveAll renderer locale bindings needs) := by
  induction needs generalizing bindings with
  | nil => exact h
  | cons need needs ih => exact ih (h.serve need)

theorem lookup_eq_none_iff {key : Service × String} :
    bindings.known.lookup key = none ↔ key ∉ bindings.known.map Prod.fst := by
  rw [List.lookup_eq_none_iff, List.mem_map, not_exists]
  refine forall_congr' fun entry => ?_
  rw [not_and, bne_iff_ne, ne_comm]

theorem requests_serveAll (bindings : Bindings) (needs : List Need) :
    (serveAll renderer locale bindings needs).requests =
      bindings.requests ++ (Need.fresh (bindings.known.map Prod.fst) needs).flatMap
        (Need.requests renderer.styles locale) := by
  induction needs generalizing bindings with
  | nil => simp [Bindings.serveAll, Need.fresh]
  | cons need needs ih =>
    rw [Bindings.serveAll, List.foldl_cons, ← Bindings.serveAll, ih]
    cases need with
    | duration => simp [Bindings.serve, Need.fresh]
    | style service text =>
      rw [Bindings.serve, Need.fresh]
      cases found : bindings.known.lookup (service, text) with
      | some formatting =>
        have present : (service, text) ∈ bindings.known.map Prod.fst := by
          by_contra absent
          rw [lookup_eq_none_iff.2 absent] at found
          cases found
        rw [if_pos present]
      | none =>
        rw [if_neg (lookup_eq_none_iff.1 found)]
        simp [Need.requests]

end Bindings

/-! ## Preparing serves the needs -/

namespace Renderer

variable {α β : Type} {renderer : Renderer} {locale : String} {pluralLocale : Option String}

/-- From sound bindings, preparing yields a value and serves some needs. -/
def Prepares (renderer : Renderer) (locale : String) (preparing : Preparing α) (value : α)
    (needs : List Need) : Prop :=
  ∀ bindings, Bindings.Sound renderer locale bindings →
    preparing.run bindings = (value, Bindings.serveAll renderer locale bindings needs)

theorem prepares_pure (value : α) : Prepares renderer locale (pure value) value [] :=
  fun _ _ => rfl

theorem Prepares.bind {preparing : Preparing α} {next : α → Preparing β} {value : α} {last : β}
    {needs more : List Need} (h : Prepares renderer locale preparing value needs)
    (hnext : Prepares renderer locale (next value) last more) :
    Prepares renderer locale (preparing >>= next) last (needs ++ more) := by
  intro bindings sound
  have first := h bindings sound
  have second := hnext _ (sound.serveAll needs)
  calc (preparing >>= next).run bindings
      = (next (preparing.run bindings).1).run (preparing.run bindings).2 := rfl
    _ = (last, Bindings.serveAll renderer locale bindings (needs ++ more)) := by
      rw [first, second, Bindings.serveAll_append]

theorem Prepares.map {preparing : Preparing α} {value : α} {needs : List Need}
    (h : Prepares renderer locale preparing value needs) (f : α → β) :
    Prepares renderer locale (preparing >>= fun a => pure (f a)) (f value) needs := by
  have mapped : Prepares renderer locale (preparing >>= fun a => pure (f a)) (f value)
      (needs ++ []) := h.bind (prepares_pure (f value))
  rwa [List.append_nil] at mapped

theorem prepares_bindStyle (service : Service) (style : Option String) :
    Prepares renderer locale
      (renderer.bindStyle locale service style (renderer.styles.resolve style service))
      (renderer.localizer.bind ⟨service, locale, renderer.styles.resolve style service⟩)
      [.style service (style.getD "")] := by
  intro bindings sound
  have known := sound service (style.getD "")
  rw [StyleTable.resolve_getD] at known
  rw [Bindings.serveAll, List.foldl_cons, List.foldl_nil, Bindings.serve,
    StyleTable.resolve_getD, bindStyle]
  cases found : bindings.known.lookup (service, style.getD "") with
  | some formatting =>
    -- What the table holds is what binding once more would give.
    obtain rfl := known formatting found
    simp only [StateT.run_bind, StateT.run_get, pure_bind, found]
    rfl
  | none =>
    simp only [StateT.run_bind, StateT.run_get, pure_bind, found]
    rfl

theorem prepares_bindDuration : Prepares renderer locale (renderer.bindDuration locale)
    (renderer.formattingOf locale none .duration) [.duration] := by
  intro bindings _
  have three : ∀ a b c : BindRequest, ((bindings.requests ++ [a]) ++ [b]) ++ [c] =
      bindings.requests ++ [a, b, c] := by simp
  refine Prod.ext rfl ?_
  exact congrArg (Bindings.mk bindings.known) (three _ _ _)

theorem prepares_bindSimple (style : Option String) : (type : SimpleType) →
    Prepares renderer locale (renderer.bindSimple locale style type)
      (renderer.formattingOf locale style type) [type.need style]
  | .number => prepares_bindStyle .number style
  | .date => prepares_bindStyle .date style
  | .time => prepares_bindStyle .time style
  | .ordinal => prepares_bindStyle .number style
  | .spellout => prepares_bindStyle .number style
  | .duration => prepares_bindDuration

mutual

theorem prepares_element (inside : Option Counted) : (e : Element) →
    Prepares renderer locale (prepareElement renderer locale pluralLocale e)
      (renderElement renderer locale pluralLocale .byEnv inside e) e.needs
  | .text _ => prepares_pure _
  | .hash => (prepares_bindSimple none .number).map renderHash
  | .placeholder id kind => prepares_kind inside id kind

theorem prepares_kind (inside : Option Counted) (id : String) : (kind : Kind) →
    Prepares renderer locale (prepareKind renderer locale pluralLocale id kind)
      (renderKind renderer locale pluralLocale .byEnv inside id kind) kind.needs
  | .argument => prepares_pure _
  | .simple type style =>
    (prepares_bindSimple style type).map fun formatting (env : Env) =>
      [Part.text (formatting (Args.get env.args id))]
  | .plural type offset cases =>
    (prepares_cases (some ⟨id, offset⟩) cases).map (renderPlural pluralLocale id type offset)
  | .select cases => (prepares_cases inside cases).map (renderSelect id)
  | .custom _ _ => prepares_pure _
  | .tag children =>
    (prepares_elements inside children).map fun rendering (env : Env) =>
      [Part.tag id (rendering env)]
  | .emptyTag => prepares_pure _

theorem prepares_case (inside : Option Counted) : (c : Case) →
    Prepares renderer locale (prepareCase renderer locale pluralLocale c)
      (renderCase renderer locale pluralLocale .byEnv inside c) c.needs
  | ⟨selector, message⟩ => (prepares_elements inside message).map (Prod.mk selector)

theorem prepares_cases (inside : Option Counted) : (cs : List Case) →
    Prepares renderer locale (prepareCases renderer locale pluralLocale cs)
      (renderCases renderer locale pluralLocale .byEnv inside cs) (casesNeeds cs)
  | [] => prepares_pure _
  | c :: cs => (prepares_case inside c).bind ((prepares_cases inside cs).map _)

theorem prepares_elements (inside : Option Counted) : (es : List Element) →
    Prepares renderer locale (prepareElements renderer locale pluralLocale es)
      (renderElements renderer locale pluralLocale .byEnv inside es) (elementsNeeds es)
  | [] => prepares_pure _
  | e :: es => (prepares_element inside e).bind
    ((prepares_elements inside es).map fun others env =>
      renderElement renderer locale pluralLocale .byEnv inside e env ++ others env)

end

theorem prepare_eq (renderer : Renderer) (message : Message) (locales : List String) :
    renderer.prepare message locales =
      ⟨renderer.render .byEnv locales message, renderer.localizer.undefinedText,
        (Need.fresh [] message.needs).flatMap
          (Need.requests renderer.styles (locales.headD ""))⟩ := by
  have prepared : Prepares renderer (locales.headD "")
      (prepareElements renderer (locales.headD "") (Plural.supported? locales) message)
      (renderer.render .byEnv locales message) message.needs := prepares_elements none message
  rw [prepare, prepared {} Bindings.sound_empty]
  simp only [Bindings.requests_serveAll, List.nil_append, List.map_nil]

/-! ## Other localizers -/

/-- Whether a localizer answers the requests for some needs as that of the renderer does. -/
def AnswersLike (renderer : Renderer) (locale : String) (other : Localizer) (needs : List Need) :
    Prop :=
  ∀ request ∈ needs.flatMap (Need.requests renderer.styles locale),
    other.bind request = renderer.localizer.bind request

variable {other : Localizer}

theorem answersLike_append {needs more : List Need} :
    AnswersLike renderer locale other (needs ++ more) ↔
      AnswersLike renderer locale other needs ∧ AnswersLike renderer locale other more := by
  rw [AnswersLike, List.flatMap_append, List.forall_mem_append]
  rfl

theorem formattingOf_congr {style : Option String} {type : SimpleType}
    (h : AnswersLike renderer locale other [type.need style]) :
    formattingOf { renderer with localizer := other } locale style type =
      renderer.formattingOf locale style type := by
  cases type with
  | duration =>
    simp only [AnswersLike, SimpleType.need, List.flatMap_singleton, Need.requests,
      List.forall_mem_cons] at h
    simp only [formattingOf, h]
  | _ =>
    simp only [AnswersLike, SimpleType.need, List.flatMap_singleton, Need.requests,
      List.forall_mem_singleton, StyleTable.resolve_getD] at h
    exact h

mutual

theorem renderElement_congr (mark : Mark) (inside : Option Counted) : (e : Element) →
    AnswersLike renderer locale other e.needs →
    renderElement { renderer with localizer := other } locale pluralLocale mark inside e =
      renderElement renderer locale pluralLocale mark inside e
  | .text _, _ => rfl
  | .hash, h => by
    have number : AnswersLike renderer locale other [SimpleType.need none .number] := h
    rw [renderElement, renderElement, formattingOf_congr number]
  | .placeholder id kind, h => renderKind_congr mark inside id kind h

theorem renderKind_congr (mark : Mark) (inside : Option Counted) (id : String) : (kind : Kind) →
    AnswersLike renderer locale other kind.needs →
    renderKind { renderer with localizer := other } locale pluralLocale mark inside id kind =
      renderKind renderer locale pluralLocale mark inside id kind
  | .argument, _ => rfl
  | .simple _ _, h => by rw [renderKind, renderKind, formattingOf_congr h]
  | .plural type offset cases, h => by
    rw [renderKind, renderKind, renderCases_congr mark (some ⟨id, offset⟩) cases h]
  | .select cases, h => by rw [renderKind, renderKind, renderCases_congr mark inside cases h]
  | .custom _ _, _ => rfl
  | .tag children, h => by
    rw [renderKind, renderKind, renderElements_congr mark inside children h]
  | .emptyTag, _ => rfl

theorem renderCase_congr (mark : Mark) (inside : Option Counted) : (c : Case) →
    AnswersLike renderer locale other c.needs →
    renderCase { renderer with localizer := other } locale pluralLocale mark inside c =
      renderCase renderer locale pluralLocale mark inside c
  | ⟨_, message⟩, h => by
    rw [renderCase, renderCase, renderElements_congr mark inside message h]

theorem renderCases_congr (mark : Mark) (inside : Option Counted) : (cs : List Case) →
    AnswersLike renderer locale other (casesNeeds cs) →
    renderCases { renderer with localizer := other } locale pluralLocale mark inside cs =
      renderCases renderer locale pluralLocale mark inside cs
  | [], _ => rfl
  | c :: cs, h => by
    obtain ⟨head, tail⟩ := answersLike_append.1 h
    rw [renderCases, renderCases, renderCase_congr mark inside c head,
      renderCases_congr mark inside cs tail]

theorem renderElements_congr (mark : Mark) (inside : Option Counted) : (es : List Element) →
    AnswersLike renderer locale other (elementsNeeds es) →
    renderElements { renderer with localizer := other } locale pluralLocale mark inside es =
      renderElements renderer locale pluralLocale mark inside es
  | [], _ => rfl
  | e :: es, h => by
    obtain ⟨head, tail⟩ := answersLike_append.1 h
    rw [renderElements, renderElements, renderElement_congr mark inside e head,
      renderElements_congr mark inside es tail]

end

end Renderer

/-- The localizer, but with other answers to all but some requests. -/
def Localizer.replacing (localizer : Localizer) (kept : List BindRequest)
    (answer : BindRequest → Formatting) : Localizer :=
  { localizer with
    bind request := if request ∈ kept then localizer.bind request else answer request }

/-- Preparing asks once for each style, at its first place, and three times for each duration. What
is rendered then is as if every placeholder had been bound by itself, with the options of its own
style, and depends on no other request. -/
theorem Renderer.prepare_requests (renderer : Renderer) (message : Message)
    (locales : List String) :
    let prepared := renderer.prepare message locales
    let asked := Need.fresh [] message.needs
    prepared.requests = asked.flatMap (Need.requests renderer.styles (locales.headD "")) ∧
      asked.filterMap Need.key? = (message.needs.filterMap Need.key?).eraseDups ∧
      asked.count .duration = message.needs.count .duration ∧
      prepared.rendering = renderer.render .byEnv locales message ∧
      ∀ answer, (Renderer.prepare
        { renderer with localizer := renderer.localizer.replacing prepared.requests answer }
        message locales).rendering = prepared.rendering := by
  intro prepared asked
  have whole : prepared = _ := renderer.prepare_eq message locales
  refine ⟨congrArg Prepared.requests whole, ?_, Need.count_duration_fresh _ _,
    congrArg Prepared.rendering whole, fun answer => ?_⟩
  · simpa using Need.filterMap_key?_fresh [] message.needs
  · rw [prepare_eq, whole]
    -- A need that is not asked for again is a style that was asked for before.
    refine renderElements_congr _ _ message fun request hr => if_pos ?_
    obtain ⟨need, needed, hr⟩ := List.mem_flatMap.1 hr
    exact List.mem_flatMap.2 ⟨need, Need.mem_fresh needed (by simp), hr⟩

end MessageFormat
