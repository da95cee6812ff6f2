import CodeCompletion.Session

namespace CodeCompletion

/-- What a host may call on a session. -/
inductive Call where
  | complete (source : Engine) (request : HostRequest)
  | resolveDetails (id : UInt64) (name : String) (details : EntryDetails)
  | clearDetails
  | documentChanged (file : String)
  | setSettings (settings : Settings)
  | configure (flat : Json.Fields)

inductive Answer where
  | completion (response : Option Response)
  /-- Details, and the metadata that was handed out for them. -/
  | details (details : EntryDetails) (taken : Option Deferred)
  | configured (error : Option ConfigError)
  | done

structure Exchange where
  time : Nat
  call : Call
  answer : Answer

def Session.perform (s : Session) (now : Nat) : Call → Answer × Session
  | .complete source request =>
    let reply := s.complete source request now
    (.completion reply.value, reply.session)
  | .resolveDetails id name details =>
    let reply := s.resolveDetails id name details now
    (.details reply.value (s.takeDetails id name now).value, reply.session)
  | .clearDetails => (.done, s.clearDetails)
  | .documentChanged file => (.done, (s.documentChanged file).session)
  | .setSettings settings => (.done, { s with settings })
  | .configure flat =>
    match s.configure flat with
    | .ok s' => (.configured none, s')
    | .error e => (.configured (some e), s)

/-- A session and what has been said. -/
structure Conversation where
  session : Session
  past : List Exchange := []

namespace Conversation

def say (c : Conversation) (now : Nat) (call : Call) : Conversation where
  session := (c.session.perform now call).2
  past := c.past ++ [⟨now, call, (c.session.perform now call).1⟩]

def sayAll (c : Conversation) : List (Nat × Call) → Conversation
  | [] => c
  | (now, call) :: calls => (c.say now call).sayAll calls

def fresh (settings : Settings) (detailsTtl : Nat) : Conversation where
  session := { settings, detailsTtl }

end Conversation

def Answer.enriched? : Answer → Option EnrichedList
  | .completion (some (.enriched result)) => some result
  | _ => none

/-! ### Requests -/

namespace Session

def initialEffects (s : Session) (request : HostRequest) (raw : RawCompletions) : Effects :=
  { cancelled := request.cancelled, components := s.components
    log := (tagEvents raw.entries).toArray }

variable (s : Session) (source : Engine) (request : HostRequest) (now : Nat)

theorem complete_of_raw (raw : RawCompletions)
    (hraw : source request.document request.offset request.trigger = some raw)
    (hcommand : request.trigger.command = none) :
    (s.complete source request now).value = some (.enriched (s.enrichRaw request raw now).value) ∧
      (s.complete source request now).session = (s.enrichRaw request raw now).session := by
  unfold complete
  rw [hraw, hcommand]
  exact ⟨rfl, rfl⟩

theorem complete_cases :
    ((s.complete source request now).session = s ∧
      ∀ result, (s.complete source request now).value ≠ some (.enriched result)) ∨
    ∃ raw, source request.document request.offset request.trigger = some raw ∧
      request.trigger.command = none := by
  unfold complete
  cases source request.document request.offset request.trigger with
  | none => exact Or.inl ⟨rfl, fun _ h => nomatch h⟩
  | some raw =>
    cases request.trigger.command with
    | some command => exact Or.inl ⟨rfl, fun _ h => nomatch h⟩
    | none => exact Or.inr ⟨raw, rfl, rfl⟩

end Session

end CodeCompletion
