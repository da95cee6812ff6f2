import CodeCompletion.Enrichment
import CodeCompletion.Settings.Flat

/-!
# Completion sessions

A session serves the requests of one host. It keeps the settings, counts the requests it has
enriched, remembers facts about components, and holds the deferred metadata of the latest
request, which is handed out once and only for a while.
-/

namespace CodeCompletion

/-! ### Questions of the host -/

structure Trigger where
  character : Option Char := none
  /-- A command of the host; the engine's answer is then passed on as it is. -/
  command : Option String := none
  deriving Repr, DecidableEq, Inhabited

structure HostRequest where
  document : Document
  offset : Nat
  trigger : Trigger := {}
  formatting : Formatting := {}
  checker : Checker
  cancelled : Bool := false

abbrev Engine := Document → Nat → Trigger → Option RawCompletions

def Engine.mapAnswers (source : Engine)
    (change : RawCompletions → Document → RawCompletions) : Engine :=
  fun document offset trigger => (source document offset trigger).map (change · document)

/-! ### Answers -/

/-- Facts about the list as a whole. -/
structure Auxiliary where
  snippetPosition : Bool
  isMemberCompletion : Bool
  isNewIdentifierLocation : Bool
  optionalReplacementSpan : Option Span
  cancelled : Bool
  deriving Repr, DecidableEq

structure EnrichedList where
  requestId : UInt64
  entries : List Entry
  deferred : DeferredMap
  auxiliary : Auxiliary

inductive Response where
  | enriched (result : EnrichedList)
  | passthrough (raw : RawCompletions)

/-! ### State -/

/-- The deferred metadata of a request and when it was stored. -/
structure StoredDetails where
  requestId : UInt64
  storedAt : Nat
  entries : DeferredMap

/-- How long stored details last, in seconds. -/
def defaultDetailsTtl : Nat := 300

structure Session where
  settings : Settings := {}
  components : ComponentCache := ∅
  detailsTtl : Nat := defaultDetailsTtl
  details : Option StoredDetails := none
  nextRequest : UInt64 := 1

/-- The result of a call, the state after it and what was reported. -/
structure Reply (α : Type) where
  value : α
  session : Session
  log : List Event

namespace Session

/-- A session configured by a flat map. A configuration that cannot be read is reported and
leaves the defaults. -/
def ofFlat (flat : Json.Fields) : Session × List Event :=
  match Settings.ofFlat flat with
  | .ok settings => ({ settings }, [])
  | .error e => ({}, [.settingsIgnored e.message])

/-- Takes new settings from a flat map; if it cannot be read the old ones stay. -/
def configure (s : Session) (flat : Json.Fields) : Except ConfigError Session := do
  return { s with settings := ← Settings.ofFlat flat }

/-- Forgets what is known about components of a file. -/
def documentChanged (s : Session) (file : String) : Reply Unit :=
  let kept := s.components.filter fun key _ => key.file != file
  { value := (), session := { s with components := kept }
    log := [.componentsDropped file (s.components.size - kept.size)] }

def stageRequest (s : Session) (request : HostRequest) (raw : RawCompletions) : Request where
  document := request.document
  position := request.offset
  settings := s.settings
  checker := request.checker
  components := s.components
  formatting := request.formatting
  triggerCharacter := request.trigger.character
  cursor := Cursor.detect request.document request.offset
  isMember := raw.isMemberCompletion

def tagEvents (entries : List RawEntry) : List Event :=
  entries.filterMap fun e =>
    if (EntryKind.ofTag? e.kind).isNone then some (.unknownKindTag e.kind) else none

/-- Enriches the engine's answer and stores what is kept aside. -/
def enrichRaw (s : Session) (request : HostRequest) (raw : RawCompletions) (now : Nat) :
    Reply EnrichedList :=
  let r := s.stageRequest request raw
  let output := enrich r (Entry.ofRawList raw.entries)
    { cancelled := request.cancelled, components := s.components
      log := (tagEvents raw.entries).toArray }
  { value := {
      requestId := s.nextRequest
      entries := output.entries
      deferred := output.deferred
      auxiliary := {
        snippetPosition := r.cursor.snippetPosition
        isMemberCompletion := raw.isMemberCompletion
        isNewIdentifierLocation := raw.isNewIdentifierLocation
        optionalReplacementSpan := raw.optionalReplacementSpan
        cancelled := output.cancelled } }
    session := { s with
      components := output.effects.components
      details := some ⟨s.nextRequest, now, output.deferred⟩
      nextRequest := s.nextRequest + 1 }
    log := output.effects.log.toList }

/-- Serves a request. Where the engine has no answer there is none, and a command gets the
engine's answer as it is; only an enriched answer takes a request number. -/
def complete (s : Session) (source : Engine) (request : HostRequest) (now : Nat) :
    Reply (Option Response) :=
  match source request.document request.offset request.trigger with
  | none => ⟨none, s, []⟩
  | some raw =>
    if request.trigger.command.isSome then ⟨some (.passthrough raw), s, []⟩
    else
      let reply := s.enrichRaw request raw now
      ⟨some (.enriched reply.value), reply.session, reply.log⟩

/-- Takes the metadata of an entry out of the store. Metadata that has lain too long is dropped
as a whole. -/
def takeDetails (s : Session) (id : UInt64) (name : String) (now : Nat) :
    Reply (Option Deferred) :=
  match s.details with
  | none => ⟨none, s, []⟩
  | some stored =>
    if stored.requestId ≠ id then ⟨none, s, []⟩
    else if s.detailsTtl < now - stored.storedAt then
      ⟨none, { s with details := none }, [.detailsExpired id.toNat]⟩
    else
      ⟨stored.entries[name]?,
        { s with details := some { stored with entries := stored.entries.erase name } }, []⟩

def resolveDetails (s : Session) (id : UInt64) (name : String) (details : EntryDetails)
    (now : Nat) : Reply EntryDetails :=
  let taken := s.takeDetails id name now
  ⟨(taken.value.map (·.apply details)).getD details, taken.session, taken.log⟩

def clearDetails (s : Session) : Session := { s with details := none }

end Session

/-! ### JSON -/

def Auxiliary.toJson (a : Auxiliary) : Json :=
  .obj ([("cancelled", .bool a.cancelled), ("isMemberCompletion", .bool a.isMemberCompletion),
      ("isNewIdentifierLocation", .bool a.isNewIdentifierLocation)] ++
    Json.field? "optionalReplacementSpan" Span.toJson a.optionalReplacementSpan ++
    [("snippetPosition", .bool a.snippetPosition)])

end CodeCompletion
