import CodeCompletion.Proofs.Session.Conversation

/-!
# Details over a conversation

Which metadata a session hands out can be read off what has been said: that of the latest enriched
answer, under its number, until it is cleared or has lain too long, and once for each name.
-/

namespace CodeCompletion

/-! ### What the past says -/

/-- The exchange hands out what is kept under a number and a name. -/
def Exchange.HandsOut (x : Exchange) (id : UInt64) (name : String) : Prop :=
  ∃ details given m, x.call = .resolveDetails id name details ∧ x.answer = .details given (some m)

/-- Metadata that a conversation holds ready at a time: it belongs to the latest enriched answer,
and since then it has neither been cleared nor handed out nor lain too long. -/
def Held (past : List Exchange) (ttl now : Nat) (id : UInt64) (name : String) (m : Deferred) :
    Prop :=
  ∃ before x later result, past = before ++ x :: later ∧ x.answer.enriched? = some result ∧
    (∀ y ∈ later, y.answer.enriched? = none) ∧
    (∀ y ∈ later, y.call ≠ .clearDetails) ∧
    (∀ y ∈ later, ¬ y.HandsOut id name) ∧
    result.requestId = id ∧ now - x.time ≤ ttl ∧ result.deferred[name]? = some m

def enrichedCount (past : List Exchange) : Nat := past.countP (·.answer.enriched?.isSome)

theorem enrichedCount_concat (past : List Exchange) (y : Exchange) :
    enrichedCount (past ++ [y]) =
      enrichedCount past + if y.answer.enriched?.isSome then 1 else 0 := by
  rw [enrichedCount, List.countP_append, List.countP_singleton]
  rfl

section Held

variable (past : List Exchange) (ttl now : Nat) (id : UInt64) (name : String) (m : Deferred)

theorem not_held_nil : ¬ Held [] ttl now id name m := by
  rintro ⟨before, x, later, result, hpast, _⟩
  exact List.append_ne_nil_of_right_ne_nil before (List.cons_ne_nil x later) hpast.symm

/-- One more exchange either holds new metadata ready or leaves some of the old. -/
theorem held_concat_iff (y : Exchange) :
    Held (past ++ [y]) ttl now id name m ↔
      (∃ result, y.answer.enriched? = some result ∧ result.requestId = id ∧ now - y.time ≤ ttl ∧
        result.deferred[name]? = some m) ∨
      (y.answer.enriched? = none ∧ y.call ≠ .clearDetails ∧ ¬ y.HandsOut id name ∧
        Held past ttl now id name m) := by
  constructor
  · rintro ⟨before, x, later, result, hpast, hx, hlatest, hkept, hunspent, hid, htime, hm⟩
    rcases List.eq_nil_or_concat later with rfl | ⟨later, z, rfl⟩
    · -- The latest enriched answer is the last exchange itself.
      obtain ⟨_, hy⟩ := List.append_inj' hpast rfl
      obtain rfl : y = x := (List.cons.inj hy).1
      exact Or.inl ⟨result, hx, hid, htime, hm⟩
    · rw [List.concat_eq_append] at *
      rw [← List.cons_append, ← List.append_assoc] at hpast
      obtain ⟨hfront, hy⟩ := List.append_inj' hpast rfl
      obtain rfl : y = z := (List.cons.inj hy).1
      have hmem : y ∈ later ++ [y] := List.mem_append_right _ (List.mem_singleton_self y)
      refine Or.inr ⟨hlatest y hmem, hkept y hmem, hunspent y hmem, before, x, later, result,
        hfront, hx, ?_, ?_, ?_, hid, htime, hm⟩
      · exact fun w hw => hlatest w (List.mem_append_left _ hw)
      · exact fun w hw => hkept w (List.mem_append_left _ hw)
      · exact fun w hw => hunspent w (List.mem_append_left _ hw)
  · rintro (⟨result, hy, hid, htime, hm⟩ | ⟨hy, hclear, hspend, hheld⟩)
    · exact ⟨past, y, [], result, rfl, hy, fun _ h => (nomatch h), fun _ h => (nomatch h),
        fun _ h => (nomatch h), hid, htime, hm⟩
    · obtain ⟨before, x, later, result, rfl, hx, hlatest, hkept, hunspent, hid, htime, hm⟩ := hheld
      have hlast (P : Exchange → Prop) (hlater : ∀ w ∈ later, P w) (hP : P y) :
          ∀ w ∈ later ++ [y], P w := by
        intro w hw
        rcases List.mem_append.mp hw with hw | hw
        · exact hlater w hw
        · rw [List.mem_singleton.mp hw]
          exact hP
      refine ⟨before, x, later ++ [y], result, ?_, hx, hlast _ hlatest hy, hlast _ hkept hclear,
        hlast _ hunspent hspend, hid, htime, hm⟩
      rw [List.append_assoc, List.cons_append]

end Held

/-! ### What the session stores -/

theorem DeferredMap.getElem?_erase_eq_some_iff (entries : DeferredMap) (name name' : String)
    (m : Deferred) :
    (entries.erase name)[name']? = some m ↔ entries[name']? = some m ∧ name' ≠ name := by
  rw [Std.TreeMap.getElem?_erase]
  by_cases hname : name = name'
  · have hcmp : compare name name' = .eq := Std.LawfulEqCmp.compare_eq_iff_eq.mpr hname
    rw [if_pos hcmp]
    exact ⟨fun h => (nomatch h), fun h => absurd hname.symm h.2⟩
  · have hcmp : compare name name' ≠ .eq := fun h => hname (Std.LawfulEqCmp.eq_of_compare h)
    rw [if_neg hcmp]
    exact ⟨fun h => ⟨h, Ne.symm hname⟩, fun h => h.1⟩

namespace Session

variable (s : Session) (id : UInt64) (name : String)

theorem takeDetails_eq_some_iff (now : Nat) (m : Deferred) :
    (s.takeDetails id name now).value = some m ↔
      ∃ stored, s.details = some stored ∧ stored.requestId = id ∧
        now - stored.storedAt ≤ s.detailsTtl ∧ stored.entries[name]? = some m := by
  unfold takeDetails
  cases hdetails : s.details with
  | none => simp
  | some stored =>
    dsimp only
    by_cases hid : stored.requestId = id
    · rw [if_neg (not_not_intro hid)]
      by_cases hold : s.detailsTtl < now - stored.storedAt
      · rw [if_pos hold]
        constructor
        · intro h
          cases h
        · rintro ⟨stored', hstored, _, htime, _⟩
          cases hstored
          exact absurd hold (Nat.not_lt.mpr htime)
      · rw [if_neg hold]
        constructor
        · exact fun h => ⟨stored, rfl, hid, Nat.not_lt.mp hold, h⟩
        · rintro ⟨stored', hstored, _, _, h⟩
          cases hstored
          exact h
    · rw [if_pos hid]
      constructor
      · intro h
        cases h
      · rintro ⟨stored', hstored, hid', _⟩
        cases hstored
        exact absurd hid' hid

theorem takeDetails_value_congr (s' : Session) (hdetails : s'.details = s.details)
    (httl : s'.detailsTtl = s.detailsTtl) (now : Nat) :
    (s'.takeDetails id name now).value = (s.takeDetails id name now).value := by
  apply Option.ext
  intro m
  rw [takeDetails_eq_some_iff, takeDetails_eq_some_iff, hdetails, httl]

theorem detailsTtl_takeDetails (now : Nat) :
    (s.takeDetails id name now).session.detailsTtl = s.detailsTtl := by
  unfold takeDetails
  repeat' split
  all_goals rfl

theorem nextRequest_takeDetails (now : Nat) :
    (s.takeDetails id name now).session.nextRequest = s.nextRequest := by
  unfold takeDetails
  repeat' split
  all_goals rfl

theorem takeDetails_takeDetails_iff (now later : Nat) (hlater : now ≤ later) (id' : UInt64)
    (name' : String) (m : Deferred) :
    ((s.takeDetails id name now).session.takeDetails id' name' later).value = some m ↔
      (s.takeDetails id' name' later).value = some m ∧
        ¬ ((s.takeDetails id name now).value.isSome = true ∧ id' = id ∧ name' = name) := by
  rw [takeDetails_eq_some_iff, takeDetails_eq_some_iff, detailsTtl_takeDetails]
  unfold takeDetails
  cases hdetails : s.details with
  | none => simp [hdetails]
  | some stored =>
    dsimp only
    by_cases hid : stored.requestId = id
    · rw [if_neg (not_not_intro hid)]
      by_cases hold : s.detailsTtl < now - stored.storedAt
      · rw [if_pos hold]
        -- All of it is dropped, and at the later time all of it is too old.
        constructor
        · rintro ⟨_, h, _⟩
          cases h
        · rintro ⟨⟨stored', hstored, _, htime, _⟩, _⟩
          cases hstored
          omega
      · rw [if_neg hold]
        simp only [Option.some.injEq, exists_eq_left', DeferredMap.getElem?_erase_eq_some_iff]
        grind
    · rw [if_pos hid]
      simp [hdetails]

end Session

/-! ### Along a conversation -/

/-- The session stores what the past says. -/
structure Conversation.Remembers (c : Conversation) (ttl clock : Nat) : Prop where
  detailsTtl : c.session.detailsTtl = ttl
  nextRequest : c.session.nextRequest = UInt64.ofNat (enrichedCount c.past + 1)
  held : ∀ now, clock ≤ now → ∀ id name m,
    (c.session.takeDetails id name now).value = some m ↔ Held c.past ttl now id name m

namespace Conversation

theorem remembers_fresh (settings : Settings) (ttl : Nat) :
    (fresh settings ttl).Remembers ttl 0 where
  detailsTtl := rfl
  nextRequest := rfl
  held now _ id name m := by
    refine ⟨fun h => ?_, fun h => absurd h (not_held_nil ttl now id name m)⟩
    cases h

section Say

variable (c : Conversation) (ttl clock now : Nat)

theorem remembers_of_frame (h : c.Remembers ttl clock) (hnow : clock ≤ now) (s' : Session)
    (x : Exchange)
    (hdetails : s'.details = c.session.details) (httl : s'.detailsTtl = c.session.detailsTtl)
    (hnext : s'.nextRequest = c.session.nextRequest) (hplain : x.answer.enriched? = none)
    (hclear : x.call ≠ .clearDetails)
    (hresolve : ∀ id name details, x.call ≠ .resolveDetails id name details) :
    (Conversation.mk s' (c.past ++ [x])).Remembers ttl now where
  detailsTtl := httl.trans h.detailsTtl
  nextRequest := by
    rw [enrichedCount_concat, hplain]
    exact hnext.trans h.nextRequest
  held later hlater id name m := by
    rw [c.session.takeDetails_value_congr id name s' hdetails httl,
      h.held later (Nat.le_trans hnow hlater), held_concat_iff]
    constructor
    · intro hheld
      refine Or.inr ⟨hplain, hclear, ?_, hheld⟩
      rintro ⟨details, _, _, hcall, _⟩
      exact hresolve id name details hcall
    · rintro (⟨result, hresult, _⟩ | ⟨_, _, _, hheld⟩)
      · rw [hplain] at hresult
        cases hresult
      · exact hheld

theorem remembers_say_enriched (h : c.Remembers ttl clock) (source : Engine)
    (request : HostRequest) (raw : RawCompletions)
    (hraw : source request.document request.offset request.trigger = some raw)
    (hcommand : request.trigger.command = none) :
    (c.say now (.complete source request)).Remembers ttl now := by
  obtain ⟨hvalue, hsession⟩ := c.session.complete_of_raw source request now raw hraw hcommand
  have hsay : c.say now (.complete source request) =
      ⟨(c.session.enrichRaw request raw now).session,
        c.past ++ [⟨now, .complete source request,
          .completion (some (.enriched (c.session.enrichRaw request raw now).value))⟩]⟩ := by
    rw [say, Session.perform, hvalue, hsession]
  rw [hsay]
  constructor
  · exact h.detailsTtl
  · show c.session.nextRequest + 1 = _
    rw [h.nextRequest, enrichedCount_concat]
    exact (UInt64.ofNat_add _ 1).symm
  · intro later _ id name m
    rw [held_concat_iff, Session.takeDetails_eq_some_iff]
    have httl : (c.session.enrichRaw request raw now).session.detailsTtl = ttl := h.detailsTtl
    rw [httl]
    constructor
    · rintro ⟨stored, hstored, hid, htime, hm⟩
      cases hstored
      exact Or.inl ⟨_, rfl, hid, htime, hm⟩
    · rintro (⟨result, hresult, hid, htime, hm⟩ | ⟨hplain, _⟩)
      · cases hresult
        exact ⟨_, rfl, hid, htime, hm⟩
      · cases hplain

theorem remembers_say_resolveDetails (h : c.Remembers ttl clock) (hnow : clock ≤ now)
    (id : UInt64) (name : String) (details : EntryDetails) :
    (c.say now (.resolveDetails id name details)).Remembers ttl now where
  detailsTtl := (c.session.detailsTtl_takeDetails id name now).trans h.detailsTtl
  nextRequest := by
    rw [say, enrichedCount_concat]
    exact (c.session.nextRequest_takeDetails id name now).trans h.nextRequest
  held later hlater id' name' m := by
    have htaken (id' : UInt64) (name' : String) :
        Exchange.HandsOut ⟨now, .resolveDetails id name details,
          (c.session.perform now (.resolveDetails id name details)).1⟩ id' name' ↔
          (c.session.takeDetails id name now).value.isSome = true ∧ id' = id ∧ name' = name := by
      constructor
      · rintro ⟨_, _, m, hcall, hanswer⟩
        cases hcall
        rw [Session.perform, Answer.details.injEq] at hanswer
        rw [hanswer.2]
        exact ⟨rfl, rfl, rfl⟩
      · rintro ⟨hsome, rfl, rfl⟩
        obtain ⟨m, hm⟩ := Option.isSome_iff_exists.mp hsome
        refine ⟨details, (c.session.resolveDetails id' name' details now).value, m, rfl, ?_⟩
        rw [Session.perform, hm]
    show ((c.session.takeDetails id name now).session.takeDetails id' name' later).value =
      some m ↔ _
    rw [Session.takeDetails_takeDetails_iff _ _ _ _ _ hlater,
      h.held later (Nat.le_trans hnow hlater), say, held_concat_iff, htaken]
    constructor
    · rintro ⟨hheld, hspend⟩
      exact Or.inr ⟨rfl, fun hcall => (nomatch hcall), hspend, hheld⟩
    · rintro (⟨result, hresult, _⟩ | ⟨_, _, hspend, hheld⟩)
      · cases hresult
      · exact ⟨hheld, hspend⟩

theorem remembers_say_clearDetails (h : c.Remembers ttl clock) :
    (c.say now .clearDetails).Remembers ttl now where
  detailsTtl := h.detailsTtl
  nextRequest := by
    rw [say, enrichedCount_concat]
    exact h.nextRequest
  held later _ id name m := by
    rw [say, held_concat_iff]
    constructor
    · intro hvalue
      cases hvalue
    · rintro (⟨result, hresult, _⟩ | ⟨_, hclear, _⟩)
      · cases hresult
      · exact absurd rfl hclear

/-- Every call leaves the session in agreement with the past. -/
theorem remembers_say (h : c.Remembers ttl clock) (hnow : clock ≤ now) (call : Call) :
    (c.say now call).Remembers ttl now := by
  cases call with
  | complete source request =>
    rcases c.session.complete_cases source request now with ⟨hsame, hplain⟩ |
      ⟨raw, hraw, hcommand⟩
    · refine c.remembers_of_frame ttl clock now h hnow _ _ ?_ ?_ ?_ ?_ (fun h => nomatch h)
        (fun _ _ _ h => nomatch h)
      · exact congrArg Session.details hsame
      · exact congrArg Session.detailsTtl hsame
      · exact congrArg Session.nextRequest hsame
      · rw [Session.perform, Answer.enriched?.eq_def]
        split
        · rename_i result heq
          exact absurd (Answer.completion.inj heq) (hplain result)
        · rfl
    · exact c.remembers_say_enriched ttl clock now h source request raw hraw hcommand
  | resolveDetails id name details =>
    exact c.remembers_say_resolveDetails ttl clock now h hnow id name details
  | clearDetails => exact c.remembers_say_clearDetails ttl clock now h
  | documentChanged file =>
    exact c.remembers_of_frame ttl clock now h hnow _ _ rfl rfl rfl rfl (fun h => nomatch h)
      (fun _ _ _ h => nomatch h)
  | setSettings settings =>
    exact c.remembers_of_frame ttl clock now h hnow _ _ rfl rfl rfl rfl (fun h => nomatch h)
      (fun _ _ _ h => nomatch h)
  | configure flat =>
    have hperform : (c.session.perform now (.configure flat)).1.enriched? = none ∧
        ∃ settings, (c.session.perform now (.configure flat)).2 = { c.session with settings } := by
      rw [Session.perform, Session.configure]
      cases Settings.ofFlat flat with
      | ok settings => exact ⟨rfl, settings, rfl⟩
      | error e => exact ⟨rfl, c.session.settings, rfl⟩
    obtain ⟨hplain, settings, hsession⟩ := hperform
    refine c.remembers_of_frame ttl clock now h hnow _ _ ?_ ?_ ?_ hplain (fun h => nomatch h)
      (fun _ _ _ h => nomatch h)
    all_goals rw [hsession]

end Say

theorem Remembers.mono {c : Conversation} {ttl clock : Nat} (h : c.Remembers ttl clock)
    (now : Nat) (hnow : clock ≤ now) : c.Remembers ttl now where
  detailsTtl := h.detailsTtl
  nextRequest := h.nextRequest
  held later hlater := h.held later (Nat.le_trans hnow hlater)

theorem remembers_sayAll (calls : List (Nat × Call)) (c : Conversation) (ttl clock now : Nat)
    (h : c.Remembers ttl clock)
    (hclock : (clock :: (calls.map (·.1) ++ [now])).Pairwise (· ≤ ·)) :
    (c.sayAll calls).Remembers ttl now := by
  induction calls generalizing c clock with
  -- The clock is carried along: what is held is known for the time of the last call and later.
  | nil =>
    have hnow : clock ≤ now := List.rel_of_pairwise_cons hclock (List.mem_singleton_self now)
    exact h.mono now hnow
  | cons head calls ih =>
    obtain ⟨time, call⟩ := head
    have htime : clock ≤ time := List.rel_of_pairwise_cons hclock (List.mem_cons_self ..)
    exact ih (c.say time call) time (c.remembers_say ttl clock time h htime call) hclock.of_cons

/-- At any point of a conversation, under a clock that does not run backwards: the next enriched
answer is numbered by how many came before it, other answers to requests leave the session as it is,
and details are completed with what the past holds ready, and with nothing else. -/
theorem answers_follow_past (settings : Settings) (ttl : Nat) (calls : List (Nat × Call))
    (now : Nat) (hclock : (calls.map (·.1) ++ [now]).Pairwise (· ≤ ·)) :
    let c := (fresh settings ttl).sayAll calls
    (∀ source request result,
      (c.session.complete source request now).value = some (.enriched result) →
      result.requestId = UInt64.ofNat (enrichedCount c.past + 1)) ∧
    (∀ source request,
      (∀ result, (c.session.complete source request now).value ≠ some (.enriched result)) →
      (c.session.complete source request now).session = c.session) ∧
    ∀ id name,
      (∀ m, (c.session.takeDetails id name now).value = some m ↔
        Held c.past ttl now id name m) ∧
      ∀ details,
        (∀ m, Held c.past ttl now id name m →
          (c.session.resolveDetails id name details now).value = m.apply details) ∧
        ((∀ m, ¬ Held c.past ttl now id name m) →
          (c.session.resolveDetails id name details now).value = details) := by
  intro c
  have hfrom : (0 :: (calls.map (·.1) ++ [now])).Pairwise (· ≤ ·) :=
    List.pairwise_cons.mpr ⟨fun t _ => Nat.zero_le t, hclock⟩
  have hc : c.Remembers ttl now :=
    remembers_sayAll calls _ ttl 0 now (remembers_fresh settings ttl) hfrom
  refine ⟨?_, ?_, fun id name => ⟨hc.held now (Nat.le_refl now) id name, ?_⟩⟩
  · intro source request result hanswer
    rcases c.session.complete_cases source request now with ⟨_, hplain⟩ | ⟨raw, hraw, hcommand⟩
    · exact absurd hanswer (hplain result)
    · rw [(c.session.complete_of_raw source request now raw hraw hcommand).1] at hanswer
      cases hanswer
      exact hc.nextRequest
  · intro source request hplain
    rcases c.session.complete_cases source request now with ⟨hsame, _⟩ | ⟨raw, hraw, hcommand⟩
    · exact hsame
    · exact absurd (c.session.complete_of_raw source request now raw hraw hcommand).1 (hplain _)
  · intro details
    constructor
    · intro m hm
      rw [Session.resolveDetails, (hc.held now (Nat.le_refl now) id name m).mpr hm]
      rfl
    · intro hnone
      have htaken : (c.session.takeDetails id name now).value = none := by
        rw [Option.eq_none_iff_forall_ne_some]
        intro m hm
        exact hnone m ((hc.held now (Nat.le_refl now) id name m).mp hm)
      rw [Session.resolveDetails, htaken]
      rfl

/-- A request whose only entry needs an import, and a change of the file. -/
def importingCalls : List (Nat × Call) :=
  let join := { name := "join", kind := "function", sortText := "16", source := some "path",
                hasAction := true }
  let request := { document := .ofFile "/p/src/index.ts" "" .empty, offset := 0
                   checker := Program.checker {} }
  [(0, .complete (fun _ _ _ => some { entries := [join] }) request),
   (2, .documentChanged "/p/src/index.ts")]

def importing : Conversation :=
  (fresh { namespaceImports := [("path", { name := "path", addImport := true })] } 3).sayAll
    importingCalls

theorem answers_follow_past_of_importing :
    (importingCalls.map Prod.fst ++ [3]).Pairwise (· ≤ ·) ∧
    Held importing.past 3 3 1 "join" (Stage.importMetadata {} "path" "path") ∧
    (importing.session.resolveDetails 1 "join" { name := "join" } 3).value =
      (Stage.importMetadata {} "path" "path").apply { name := "join" } := by
  have hclock : (importingCalls.map Prod.fst ++ [3]).Pairwise (· ≤ ·) := by decide
  obtain ⟨_, _, hdetails⟩ := answers_follow_past
    { namespaceImports := [("path", { name := "path", addImport := true })] } 3 importingCalls 3
    hclock
  obtain ⟨hheld, happly⟩ := hdetails 1 "join"
  have htaken := (hheld (Stage.importMetadata {} "path" "path")).mp (by decide +kernel)
  exact ⟨hclock, htaken, (happly { name := "join" }).1 _ htaken⟩

end Conversation

end CodeCompletion
