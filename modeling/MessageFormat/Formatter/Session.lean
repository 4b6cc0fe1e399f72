import MessageFormat.Formatter.Basic

/-!
Sessions: several formatters, some of which share a cache, serve requests one after the other.
-/

namespace MessageFormat

inductive Request where
  | format (pattern : String) (args : Args)
  | formatIn (locale pattern : String) (args : Args)
  | formatToParts (pattern : String) (args : Args)
  | formatMessage (descriptor : Descriptor) (args : Args)
  | formatMessageToParts (descriptor : Descriptor) (args : Args)
  | namespaceFormat (label pattern : String) (args : Args)
  | namespaceFormatMessage (label : String) (descriptor : Descriptor) (args : Args)
  | namespaceFormatToParts (label pattern : String) (args : Args)
  | patternOf (descriptor : Descriptor) (locale : String)
  | setLocale (locale : String)
  | editCatalogs (edit : Catalogs → Catalogs)
  | clearCache

inductive Answer where
  | text (text : String)
  | parts (parts : List Part)
  | done

structure Reply where
  result : Except FormatError Answer
  formatter : Formatter
  cache : Cache
  log : List LogEntry

namespace Formatter

def reply {α : Type} (formatter : Formatter) (answer : α → Answer) (outcome : Outcome α) :
    Reply where
  result := outcome.result.map answer
  formatter := formatter
  cache := outcome.cache
  log := outcome.log

def serve (formatter : Formatter) (cache : Cache) : Request → Reply
  | .format pattern args => formatter.reply .text (formatter.format cache pattern args)
  | .formatIn locale pattern args =>
      formatter.reply .text (formatter.formatIn cache locale pattern args)
  | .formatToParts pattern args =>
      formatter.reply .parts (formatter.formatToParts cache pattern args)
  | .formatMessage descriptor args =>
      formatter.reply .text (formatter.formatMessage cache descriptor args)
  | .formatMessageToParts descriptor args =>
      formatter.reply .parts (formatter.formatMessageToParts cache descriptor args)
  | .namespaceFormat label pattern args =>
      formatter.reply .text (Namespace.format ⟨formatter, label⟩ cache pattern args)
  | .namespaceFormatMessage label descriptor args =>
      formatter.reply .text (Namespace.formatMessage ⟨formatter, label⟩ cache descriptor args)
  | .namespaceFormatToParts label pattern args =>
      formatter.reply .parts (Namespace.formatToParts ⟨formatter, label⟩ cache pattern args)
  | .patternOf descriptor locale =>
      let (result, log) := formatter.patternOf descriptor locale
      ⟨result.map .text, formatter, cache, log⟩
  | .setLocale locale => ⟨.ok .done, { formatter with locale }, cache, []⟩
  | .editCatalogs edit =>
      ⟨.ok .done, { formatter with catalogs := edit formatter.catalogs }, cache, []⟩
  | .clearCache => ⟨.ok .done, formatter, cache.clear, []⟩

end Formatter

structure Member where
  formatter : Formatter
  cache : Nat

structure Session where
  members : List Member := []
  caches : List Cache := []

namespace Session

/-- The cache with a number; one that does not exist keeps nothing. -/
def cacheAt (session : Session) (index : Nat) : Cache :=
  (session.caches[index]?).getD .disabled

def serve? (session : Session) (index : Nat) (request : Request) : Option (Session × Reply) :=
  match session.members[index]? with
  | none => none
  | some member =>
      let reply := member.formatter.serve (session.cacheAt member.cache) request
      some
        ({ members := session.members.set index { member with formatter := reply.formatter }
           caches := session.caches.set member.cache reply.cache },
         reply)

/-- Serves requests one after the other; those to no member are passed over. -/
def run (session : Session) : List (Nat × Request) → Session × List Reply
  | [] => (session, [])
  | (index, request) :: rest =>
      match session.serve? index request with
      | none => session.run rest
      | some (next, reply) =>
          let (final, replies) := next.run rest
          (final, reply :: replies)

end Session

end MessageFormat
