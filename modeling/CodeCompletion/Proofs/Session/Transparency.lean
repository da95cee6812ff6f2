import CodeCompletion.Proofs.Enrichment.Recall
import CodeCompletion.Proofs.Session.Conversation

/-!
# When remembered facts do not show

A session remembers whether an entry is a component under the file that declares it, its name and
a version, but not under the symbol that it stands for. Answers are those of a new session,
however the session is asked, exactly if entries that meet under one key are judged alike.
-/

namespace CodeCompletion

/-! ### Offers -/

/-- An entry that an engine may offer, and where. -/
structure Offer where
  document : Document
  offset : Nat
  character : Option Char := none
  entry : RawEntry

namespace Offer

variable (p : Program) (o : Offer)

def host (o : Offer) (p : Program) : HostRequest where
  document := o.document
  offset := o.offset
  trigger := { character := o.character }
  checker := p.checker

/-- The entry stands where a tag is named, and its kind does not say whether it is an element. -/
def isJudged : Bool :=
  Stage.atTag (Session.stageRequest {} (o.host p) { entries := [] }) &&
    (Stage.elementByKind? (Entry.ofRaw o.entry)).isNone

def key : ComponentKey :=
  let file := ((o.entry.symbol.bind p.symbol?).bind (·.declarationFile?)).getD o.document.fileName
  { file, name := o.entry.name
    version := if file = o.document.fileName then o.document.version else 0 }

def verdict : Bool := (o.entry.symbol.bind p.typeOfSymbol?).all Stage.isComponentType

/-- Two entries meet under one key, and their types say different things. -/
structure Clashes (a b : Offer) : Prop where
  left_judged : a.isJudged p = true
  right_judged : b.isJudged p = true
  same_key : a.key p = b.key p
  verdicts_differ : a.verdict p ≠ b.verdict p

end Offer

def HostRequest.offer (request : HostRequest) (entry : RawEntry) : Offer :=
  ⟨request.document, request.offset, request.trigger.character, entry⟩

/-- Documents that are the same if they have the same name. -/
def Document.Agrees (a b : Document) : Prop :=
  a.fileName = b.fileName → a.text = b.text ∧ a.tree = b.tree ∧ a.version = b.version

def Call.document? : Call → Option Document
  | .complete _ request => some request.document
  | _ => none

/-- A call that asks about a program, and is answered by its engine with some of the offers, or
that tells of a change. -/
def Call.Within (p : Program) (offers : Offer → Prop) : Call → Prop
  | .complete source request => request.checker = p.checker ∧
    ∀ raw, source request.document request.offset request.trigger = some raw →
      ∀ e ∈ raw.entries, offers (request.offer e)
  | .documentChanged _ => True
  | _ => False

/-- However a session is asked about a program, as long as documents of one name are the same and
engines stay with the offers, it gives the enriched answers of a new session. -/
def Transparent (p : Program) (offers : Offer → Prop) : Prop :=
  ∀ (settings : Settings) (ttl : Nat) (calls : List (Nat × Call)) (now : Nat) (source : Engine)
    (request : HostRequest),
    (∀ call ∈ calls.map (·.2) ++ [.complete source request], call.Within p offers) →
    (∀ a ∈ calls.map (·.2) ++ [.complete source request],
      ∀ b ∈ calls.map (·.2) ++ [.complete source request],
      ∀ d ∈ a.document?, ∀ d' ∈ b.document?, d.Agrees d') →
    ∀ result, (((Conversation.fresh settings ttl).sayAll calls).session.complete source request
        now).value = some (.enriched result) →
      ∃ alone, ((Conversation.fresh settings ttl).session.complete source request now).value =
          some (.enriched alone) ∧
        result.entries = alone.entries ∧ result.deferred = alone.deferred ∧
        result.auxiliary = alone.auxiliary

/-! ### Entries and offers -/

theorem value_entryType (r : Request) (e : Entry) :
    (r.entryType e).value = e.symbol.bind r.checker.typeOfSymbol := by
  rw [Request.entryType]
  cases e.symbol with
  | none => rfl
  | some id => rfl

theorem value_declarationFile (r : Request) (e : Entry) :
    (r.declarationFile e).value = (e.symbol.bind r.checker.symbol).bind (·.declarationFile?) := by
  rw [Request.declarationFile, Traced.value_bind, Request.entrySymbol]
  cases e.symbol with
  | none => rfl
  | some id => rfl

section Entries

variable (p : Program) (s : Session) (request : HostRequest) (raw : RawCompletions)

theorem atTag_stageRequest (entry : RawEntry) :
    Stage.atTag (s.stageRequest request raw) =
      Stage.atTag (Session.stageRequest {} ((request.offer entry).host p) { entries := [] }) := rfl

theorem exists_offer (hchecker : request.checker = p.checker) (e : Entry)
    (he : e ∈ Entry.ofRawList raw.entries) :
    ∃ entry ∈ raw.entries, Stage.elementByKind? e = Stage.elementByKind? (Entry.ofRaw entry) ∧
      Stage.factKey (s.stageRequest request raw) e = (request.offer entry).key p ∧
      Stage.verdict (s.stageRequest request raw) e = (request.offer entry).verdict p := by
  obtain ⟨i, hi, rfl⟩ := List.mem_mapIdx.mp he
  have hstage : (s.stageRequest request raw).checker = p.checker := hchecker
  refine ⟨raw.entries[i], List.getElem_mem hi, rfl, ?_, ?_⟩
  · rw [Stage.factKey, value_declarationFile, hstage]
    rfl
  · rw [Stage.verdict, value_entryType, hstage]
    rfl

theorem exists_judged_offer (offers : Offer → Prop) (hchecker : request.checker = p.checker)
    (hoffers : ∀ e ∈ raw.entries, offers (request.offer e))
    (htag : Stage.atTag (s.stageRequest request raw) = true) (e : Entry)
    (he : e ∈ Entry.ofRawList raw.entries) (hkind : Stage.elementByKind? e = none) :
    ∃ o, offers o ∧ o.isJudged p = true ∧
      Stage.factKey (s.stageRequest request raw) e = o.key p ∧
      Stage.verdict (s.stageRequest request raw) e = o.verdict p := by
  obtain ⟨entry, hentry, hkind', hkey, hverdict⟩ := exists_offer p s request raw hchecker e he
  refine ⟨request.offer entry, hoffers entry hentry, ?_, hkey, hverdict⟩
  rw [atTag_stageRequest p s request raw entry] at htag
  rw [Offer.isJudged, htag, Bool.true_and, Option.isNone_iff_eq_none]
  exact hkind'.symm.trans hkind

end Entries

/-! ### What a session recalls -/

/-- Everything that is known is what the type of an offered entry says. -/
def Recalls (p : Program) (offers : Offer → Prop) (known : ComponentCache) : Prop :=
  ∀ key v, known[key]? = some v →
    ∃ o, offers o ∧ o.isJudged p = true ∧ o.key p = key ∧ o.verdict p = v

section Session

variable (p : Program) (offers : Offer → Prop) (s : Session)

theorem recalls_empty : Recalls p offers ∅ := by
  intro key v hv
  rw [Std.HashMap.getElem?_empty] at hv
  cases hv

theorem recalls_documentChanged (file : String) (h : Recalls p offers s.components) :
    Recalls p offers (s.documentChanged file).session.components := by
  intro key v hv
  have hkept : (s.components.filter fun key _ => key.file != file)[key]? = some v := hv
  rw [Std.HashMap.getElem?_filter', Option.filter_eq_some_iff] at hkept
  exact h key v hkept.1

theorem isQuiet_stageRequest (request : HostRequest) (raw : RawCompletions)
    (hchecker : request.checker = p.checker) :
    (s.stageRequest request raw).checker.IsQuiet := by
  show request.checker.IsQuiet
  rw [hchecker]
  exact p.isQuiet_checker

theorem recalls_enrichRaw (request : HostRequest) (raw : RawCompletions) (now : Nat)
    (hchecker : request.checker = p.checker)
    (hoffers : ∀ e ∈ raw.entries, offers (request.offer e)) (h : Recalls p offers s.components) :
    Recalls p offers (s.enrichRaw request raw now).session.components := by
  intro key v hv
  have hquiet := isQuiet_stageRequest p s request raw hchecker
  rcases known_enrich (s.stageRequest request raw) hquiet _ _ key v hv with
    hold | ⟨htag, e, he, hkind, hkey, hverdict⟩
  · exact h key v hold
  · obtain ⟨o, ho, hjudged, hkey', hverdict'⟩ :=
      exists_judged_offer p s request raw offers hchecker hoffers htag e he hkind
    exact ⟨o, ho, hjudged, hkey'.symm.trans hkey, hverdict'.symm.trans hverdict⟩

/-- What is recalled agrees with the types of the entries if no offers clash. -/
theorem agrees_of_recalls (request : HostRequest) (raw : RawCompletions)
    (hchecker : request.checker = p.checker)
    (hoffers : ∀ e ∈ raw.entries, offers (request.offer e))
    (hclash : ∀ a b, offers a → offers b → ¬ a.Clashes p b) (known : ComponentCache)
    (hknown : Recalls p offers known) (entries : List Entry)
    (hsub : entries ⊆ Entry.ofRawList raw.entries)
    (htag : Stage.atTag (s.stageRequest request raw) = true) :
    Stage.Agrees (s.stageRequest request raw) known entries ∧
      Stage.Coherent (s.stageRequest request raw) entries := by
  have hoffer (e : Entry) (he : e ∈ entries) :=
    exists_judged_offer p s request raw offers hchecker hoffers htag e (hsub he)
  have halike (a b : Offer) (ha : offers a) (hb : offers b) (hja : a.isJudged p = true)
      (hjb : b.isJudged p = true) (hkey : a.key p = b.key p) : a.verdict p = b.verdict p :=
    Decidable.byContradiction fun hne => hclash a b ha hb ⟨hja, hjb, hkey, hne⟩
  constructor
  · intro e he hkind v hv
    obtain ⟨o, ho, hjudged, hkey, hverdict⟩ := hoffer e he hkind
    obtain ⟨o', ho', hjudged', hkey', hverdict'⟩ := hknown _ v hv
    rw [hverdict, ← hverdict']
    exact halike o' o ho' ho hjudged' hjudged (hkey'.trans hkey)
  · intro e he e' he' hkind hkind' hsame
    obtain ⟨o, ho, hjudged, hkey, hverdict⟩ := hoffer e he hkind
    obtain ⟨o', ho', hjudged', hkey', hverdict'⟩ := hoffer e' he' hkind'
    rw [hverdict, hverdict']
    exact halike o o' ho ho' hjudged hjudged' (hkey.symm.trans (hsame.trans hkey'))

/-- Without clashes, an answer is that of a new session with the same settings. -/
theorem enrichRaw_of_recalls (request : HostRequest) (raw : RawCompletions) (now : Nat)
    (hchecker : request.checker = p.checker)
    (hoffers : ∀ e ∈ raw.entries, offers (request.offer e))
    (hclash : ∀ a b, offers a → offers b → ¬ a.Clashes p b)
    (hknown : Recalls p offers s.components) (new : Session) (hsettings : new.settings = s.settings)
    (hnew : new.components = ∅) :
    (s.enrichRaw request raw now).value.entries = (new.enrichRaw request raw now).value.entries ∧
    (s.enrichRaw request raw now).value.deferred = (new.enrichRaw request raw now).value.deferred ∧
    (s.enrichRaw request raw now).value.auxiliary =
      (new.enrichRaw request raw now).value.auxiliary := by
  have hrequest : new.stageRequest request raw = (s.stageRequest request raw).recalling ∅ := by
    rw [Session.stageRequest, hsettings, hnew]
    rfl
  have hsame := enrich_recalling (s.stageRequest request raw)
    (isQuiet_stageRequest p s request raw hchecker) ∅ (Entry.ofRawList raw.entries)
    (s.initialEffects request raw) (new.initialEffects request raw) rfl ?_
  · obtain ⟨hentries, hdeferred, hcancelled⟩ := hsame
    rw [← hrequest] at hentries hdeferred hcancelled
    exact ⟨hentries, hdeferred, congrArg (Auxiliary.mk _ _ _ _) hcancelled⟩
  · intro es hes
    have hagrees := agrees_of_recalls p offers s request raw hchecker hoffers hclash s.components
      hknown es hes
    have hfresh := agrees_of_recalls p offers s request raw hchecker hoffers hclash ∅
      (recalls_empty p offers) es hes
    have hold := Stage.value_elements_of_agrees (s.stageRequest request raw) es
      (fun htag => (hagrees htag).1) (fun htag => (hagrees htag).2)
    have hnew' := Stage.value_elements_of_agrees ((s.stageRequest request raw).recalling ∅) es
      (fun htag => (hfresh htag).1) (fun htag => (hfresh htag).2)
    exact hold.trans hnew'.symm

end Session

/-! ### Along a conversation -/

section Conversation

variable (p : Program) (offers : Offer → Prop)

theorem recalls_say (c : Conversation) (now : Nat) (call : Call) (hcall : call.Within p offers)
    (h : Recalls p offers c.session.components) :
    Recalls p offers (c.say now call).session.components ∧
      (c.say now call).session.settings = c.session.settings := by
  cases call with
  | complete source request =>
    have hsession : (c.say now (.complete source request)).session =
        (c.session.complete source request now).session := rfl
    rw [hsession]
    obtain ⟨hchecker, hoffers⟩ := hcall
    rcases c.session.complete_cases source request now with ⟨hsame, _⟩ | ⟨raw, hraw, hcommand⟩
    · rw [hsame]
      exact ⟨h, rfl⟩
    · rw [(c.session.complete_of_raw source request now raw hraw hcommand).2]
      refine ⟨?_, rfl⟩
      exact recalls_enrichRaw p offers c.session request raw now hchecker (hoffers raw hraw) h
  | documentChanged file => exact ⟨recalls_documentChanged p offers c.session file h, rfl⟩
  | resolveDetails id name details => exact hcall.elim
  | clearDetails => exact hcall.elim
  | setSettings settings => exact hcall.elim
  | configure flat => exact hcall.elim

theorem recalls_sayAll (calls : List (Nat × Call)) (c : Conversation)
    (hcalls : ∀ call ∈ calls.map (·.2), call.Within p offers)
    (h : Recalls p offers c.session.components) :
    Recalls p offers (c.sayAll calls).session.components ∧
      (c.sayAll calls).session.settings = c.session.settings := by
  induction calls generalizing c with
  | nil => exact ⟨h, rfl⟩
  | cons head calls ih =>
    obtain ⟨now, call⟩ := head
    have hsay := recalls_say p offers c now call (hcalls call (List.mem_cons_self ..)) h
    have hrest := ih (c.say now call) (fun call' h' => hcalls call' (List.mem_cons_of_mem _ h'))
      hsay.1
    exact ⟨hrest.1, hrest.2.trans hsay.2⟩

theorem transparent_of_no_clash
    (hclash : ∀ a b, offers a → offers b → a.document.Agrees b.document → ¬ a.Clashes p b) :
    Transparent p offers := by
  intro settings ttl calls now source request hwithin hdocuments result hresult
  -- Only offers in the documents of this conversation can meet.
  let met (o : Offer) : Prop := offers o ∧
    ∃ call ∈ calls.map (·.2) ++ [.complete source request], o.document ∈ call.document?
  have hmet : ∀ call ∈ calls.map (·.2) ++ [.complete source request], call.Within p met := by
    intro call hmem
    have hcall := hwithin call hmem
    cases call with
    | complete source' request' =>
      refine ⟨hcall.1, fun raw hraw e he => ⟨hcall.2 raw hraw e he, _, hmem, rfl⟩⟩
    | documentChanged file => exact trivial
    | resolveDetails id name details => exact hcall
    | clearDetails => exact hcall
    | setSettings settings => exact hcall
    | configure flat => exact hcall
  have hapart (a b : Offer) (ha : met a) (hb : met b) : ¬ a.Clashes p b := by
    obtain ⟨ha, call, hcall, hdoc⟩ := ha
    obtain ⟨hb, call', hcall', hdoc'⟩ := hb
    exact hclash a b ha hb (hdocuments call hcall call' hcall' _ hdoc _ hdoc')
  obtain ⟨hrecalls, hsettings⟩ := recalls_sayAll p met calls (Conversation.fresh settings ttl)
    (fun call hcall => hmet call (List.mem_append_left _ hcall)) (recalls_empty p met)
  obtain ⟨hchecker, hoffers⟩ := hmet _ (List.mem_append_right _ (List.mem_singleton_self _))
  generalize ((Conversation.fresh settings ttl).sayAll calls).session = s at *
  rcases s.complete_cases source request now with ⟨_, hplain⟩ | ⟨raw, hraw, hcommand⟩
  · exact absurd hresult (hplain result)
  · rw [(s.complete_of_raw source request now raw hraw hcommand).1] at hresult
    cases hresult
    refine ⟨_, (Session.complete_of_raw _ source request now raw hraw hcommand).1, ?_⟩
    exact enrichRaw_of_recalls p met s request raw now hchecker (hoffers raw hraw) hapart hrecalls
      _ hsettings.symm rfl

end Conversation

/-! ### Clashes show -/

/-- Settings under which little more is done than to look for elements. -/
def elementsOnly : Settings where
  enableMethodSnippets := false
  objectLiteralCompletions := { enable := false }
  improveElementSuggestions := true
  correctSorting := false
  highlightNonFunctionMethods := false
  switchExcludeCoveredCases := false
  keywordsInsertText := .nothing
  displayImportedInfo := .hidden

def Offer.raw (o : Offer) : RawCompletions where
  entries := [o.entry]
  isMemberCompletion := true

def Offer.call (p : Program) (o : Offer) : Call := .complete (fun _ _ _ => some o.raw) (o.host p)

section Clash

variable (p : Program) (o : Offer) (s : Session)

def Offer.candidate : Entry := { Entry.ofRaw o.entry with origin := some 0 }

def Offer.request : Request := s.stageRequest (o.host p) o.raw

def Offer.start (fx : Effects) : Progress := { entries := [o.candidate], effects := fx }

theorem Offer.isQuiet_request : (o.request p s).checker.IsQuiet := p.isQuiet_checker

theorem Offer.facts_candidate (hjudged : o.isJudged p = true) :
    Stage.atTag (o.request p s) = true ∧ Stage.elementByKind? o.candidate = none ∧
      Stage.factKey (o.request p s) o.candidate = o.key p ∧
      Stage.verdict (o.request p s) o.candidate = o.verdict p := by
  rw [Offer.isJudged, Bool.and_eq_true, Option.isNone_iff_eq_none] at hjudged
  obtain ⟨entry, hentry, _, hkey, hverdict⟩ := exists_offer p s (o.host p) o.raw rfl o.candidate
    (List.mem_singleton_self _)
  cases List.mem_singleton.mp hentry
  exact ⟨hjudged.1, hjudged.2, hkey, hverdict⟩

theorem Offer.value_elements (hjudged : o.isJudged p = true) :
    (Stage.elements (o.request p s) [o.candidate]).value = .ok (.kept [o.candidate]
      (if s.components[o.key p]?.getD (o.verdict p) then [o.candidate] else [])) := by
  obtain ⟨htag, hkind, hkey, hverdict⟩ := o.facts_candidate p s hjudged
  have hvalue := Stage.value_canBeElement_of_unsure (o.request p s) (o.request p s).components
    o.candidate hkind
  rw [hkey, hverdict] at hvalue
  rw [Stage.elements, if_pos htag, Traced.value_bind, Stage.value_elementsAmong_cons, hvalue]
  rfl

theorem Offer.entries_advance_elementStage (hjudged : o.isJudged p = true) (fx : Effects) :
    (Stage.elementStage.advance (o.request p s) (o.start fx)).entries =
      if s.components[o.key p]?.getD (o.verdict p) then [o.candidate] else [] := by
  have hlist := Stage.list_advance_of_isQuiet (o.request p s) (o.isQuiet_request p s)
    Stage.elementStage (o.start fx)
  have hrun : (Stage.elementStage.run (o.request p s) (o.start fx).entries).value = _ :=
    o.value_elements p s hjudged
  rw [hrun] at hlist
  have hentries := congrArg Prod.fst hlist
  generalize s.components[o.key p]?.getD (o.verdict p) = kept at hentries ⊢
  cases kept with
  | true => exact hentries
  | false => exact hentries

theorem runStages_stagesAfter_elementsOnly (r : Request) (hquiet : r.checker.IsQuiet)
    (hmember : r.isMember = true) (q : Progress) (hq : q.effects.cancelled = false) :
    (runStages r (stagesAfter elementsOnly) q).entries = Entry.sortByKey q.entries := by
  let keywords : Stage :=
    { name := "keyword_boost", enabled := fun _ => true, run := Stage.boostKeywords }
  have hstages : stagesAfter elementsOnly = [keywords, Stage.sortNormalize] := rfl
  have hskip : (keywords.run r q.entries).value = .ok .unchanged := by
    show (Stage.boostKeywords r q.entries).value = _
    rw [Stage.boostKeywords, hmember]
    rfl
  have hlist := keywords.list_advance_of_isQuiet r hquiet q
  rw [hskip] at hlist
  have hgo := (keywords.cancelled_advance_of_isQuiet r q hquiet).trans hq
  rw [hstages, runStages, hq, if_neg Bool.false_ne_true, runStages, hgo,
    if_neg Bool.false_ne_true, runStages, entries_advance_sortNormalize]
  exact congrArg Entry.sortByKey (congrArg Prod.fst hlist)

theorem Offer.enrich_candidate (hsettings : s.settings = elementsOnly) (fx : Effects)
    (hfx : fx.cancelled = false) :
    let q := Stage.elementStage.advance (o.request p s) (o.start fx)
    (enrich (o.request p s) [o.candidate] fx).entries = Entry.sortByKey q.entries ∧
    (enrich (o.request p s) [o.candidate] fx).effects.components = q.effects.components := by
  intro q
  have hquiet := o.isQuiet_request p s
  have hset : (o.request p s).settings = elementsOnly := hsettings
  have hrun := runStages_enabledStages (o.request p s) hquiet (o.start fx) hfx
  have hafter : runStages (o.request p s) (enabledStages (o.request p s).settings) (o.start fx) =
      runStages (o.request p s) (stagesAfter elementsOnly) q := by
    rw [hrun, hset]
    rfl
  have hq : q.effects.cancelled = false :=
    (Stage.cancelled_advance_of_isQuiet _ _ _ hquiet).trans hfx
  have hfinish (p' : Progress) : (finishList (o.request p s) p').entries = p'.entries := by
    unfold finishList
    rw [hset]
    rfl
  rw [enrich_of_isQuiet _ hquiet _ fx (List.cons_ne_nil _ _) hfx]
  constructor
  · exact (hfinish _).trans ((congrArg Progress.entries hafter).trans
      (runStages_stagesAfter_elementsOnly _ hquiet rfl q hq))
  · refine (components_finishList _ _).trans ((congrArg (·.effects.components) hafter).trans ?_)
    exact components_runStages_of_forgets _ hquiet _ (mem_of_mem_stagesAfter elementsOnly) q

theorem entries_enrichRaw_of_judged (hsettings : s.settings = elementsOnly) (now : Nat)
    (hjudged : o.isJudged p = true) :
    (s.enrichRaw (o.host p) o.raw now).value.entries = Entry.sortByKey
      (if s.components[o.key p]?.getD (o.verdict p) then [o.candidate] else []) := by
  have hentries := (o.enrich_candidate p s hsettings (s.initialEffects (o.host p) o.raw) rfl).1
  rw [o.entries_advance_elementStage p s hjudged] at hentries
  exact hentries

theorem components_enrichRaw_of_judged (hsettings : s.settings = elementsOnly) (now : Nat)
    (hjudged : o.isJudged p = true) (hnone : s.components = ∅) :
    (s.enrichRaw (o.host p) o.raw now).session.components[o.key p]? = some (o.verdict p) := by
  obtain ⟨htag, hkind, hkey, hverdict⟩ := o.facts_candidate p s hjudged
  have hknown : (o.request p s).components[Stage.factKey (o.request p s) o.candidate]? = none := by
    show s.components[_]? = none
    rw [hnone, Std.HashMap.getElem?_empty]
  have hlearn := learn_elements_singleton (o.request p s) o.candidate htag hkind hknown s.components
  have hcomponents := (o.enrich_candidate p s hsettings (s.initialEffects (o.host p) o.raw) rfl).2
  rw [Stage.components_advance_of_isQuiet _ (o.isQuiet_request p s)] at hcomponents
  rw [hkey, hverdict] at hlearn
  exact (congrArg (·[o.key p]?) hcomponents).trans hlearn

end Clash

/-- Asked for one of two clashing entries after the other, a session goes by the type of the other
one. -/
theorem answers_of_clash (p : Program) (a b : Offer) (h : a.Clashes p b) (ttl : Nat) :
    let c := Conversation.fresh elementsOnly ttl
    ∃ result alone,
      ((c.sayAll [(0, a.call p)]).session.complete (fun _ _ _ => some b.raw) (b.host p) 0).value =
        some (.enriched result) ∧
      (c.session.complete (fun _ _ _ => some b.raw) (b.host p) 0).value = some (.enriched alone) ∧
      result.entries.length = (if a.verdict p then 1 else 0) ∧
      alone.entries.length = (if b.verdict p then 1 else 0) := by
  intro c
  have hfirst := (c.session.complete_of_raw (fun _ _ _ => some a.raw) (a.host p) 0 a.raw rfl rfl).2
  have hsession : (c.sayAll [(0, a.call p)]).session =
      (c.session.enrichRaw (a.host p) a.raw 0).session := hfirst
  have hknown := components_enrichRaw_of_judged p a c.session rfl 0 h.left_judged rfl
  have hlength (v : Bool) : (Entry.sortByKey (if v then [b.candidate] else [])).length =
      if v then 1 else 0 := by
    rw [(Entry.perm_sortByKey _).length_eq]
    cases v <;> rfl
  refine ⟨_, _, (Session.complete_of_raw _ _ _ 0 b.raw rfl rfl).1,
    (Session.complete_of_raw _ _ _ 0 b.raw rfl rfl).1, ?_, ?_⟩
  · rw [hsession, entries_enrichRaw_of_judged p b _ rfl 0 h.right_judged, ← h.same_key, hknown]
    exact hlength (a.verdict p)
  · rw [entries_enrichRaw_of_judged p b _ rfl 0 h.right_judged]
    have hnone : c.session.components[b.key p]? = none := Std.HashMap.getElem?_empty
    rw [hnone]
    exact hlength (b.verdict p)

theorem not_clashes_of_transparent (p : Program) (offers : Offer → Prop)
    (h : Transparent p offers) (a b : Offer) (ha : offers a) (hb : offers b)
    (hdocuments : a.document.Agrees b.document) : ¬ a.Clashes p b := by
  intro hclash
  -- One request for `a` and then one for `b` tell the session from a new one.
  obtain ⟨result, alone, hresult, halone, hlength, hlength'⟩ := answers_of_clash p a b hclash 0
  have hwithin (o : Offer) (ho : offers o) : (o.call p).Within p offers := by
    refine ⟨rfl, fun raw hraw e he => ?_⟩
    cases hraw
    cases List.mem_singleton.mp he
    exact ho
  have hmem (call : Call) (hcall : call ∈ [a.call p] ++ [b.call p]) :
      call = a.call p ∨ call = b.call p := by
    simpa using hcall
  have hback : b.document.Agrees a.document := fun hname =>
    let ⟨htext, htree, hversion⟩ := hdocuments hname.symm
    ⟨htext.symm, htree.symm, hversion.symm⟩
  have hcalls : ∀ call ∈ [a.call p] ++ [b.call p], call.Within p offers := by
    intro call hcall
    rcases hmem call hcall with rfl | rfl
    · exact hwithin a ha
    · exact hwithin b hb
  have hagree : ∀ call ∈ [a.call p] ++ [b.call p], ∀ call' ∈ [a.call p] ++ [b.call p],
      ∀ d ∈ call.document?, ∀ d' ∈ call'.document?, d.Agrees d' := by
    intro call hcall call' hcall' d hd d' hd'
    rcases hmem call hcall with rfl | rfl <;> rcases hmem call' hcall' with rfl | rfl <;>
      cases hd <;> cases hd'
    · exact fun _ => ⟨rfl, rfl, rfl⟩
    · exact hdocuments
    · exact hback
    · exact fun _ => ⟨rfl, rfl, rfl⟩
  obtain ⟨alone', halone', hentries, _⟩ :=
    h elementsOnly 0 [(0, a.call p)] 0 _ _ hcalls hagree result hresult
  rw [halone] at halone'
  cases halone'
  rw [hentries, hlength'] at hlength
  have hcount : ∀ v w : Bool, (if w then 1 else 0) = (if v then 1 else 0) → v = w := by decide
  exact hclash.verdicts_differ (hcount _ _ hlength)

/-- Remembered facts never show, whatever the settings and however a session is asked, exactly if no
two offers clash that can stand in documents of one host. -/
theorem transparent_iff_no_clash (p : Program) (offers : Offer → Prop) :
    Transparent p offers ↔
      ∀ a b, offers a → offers b → a.document.Agrees b.document → ¬ a.Clashes p b :=
  ⟨not_clashes_of_transparent p offers, transparent_of_no_clash p offers⟩

/-! ### Two symbols of one name -/

/-- A program with a component and a text of the same name in one file. -/
def namesakes : Program where
  symbols := #[{ name := "Foo", kind := .classType, declarations := [⟨"/p/src/Foo.tsx", ⟨0, 3⟩⟩] },
    { name := "Foo", kind := .variable, declarations := [⟨"/p/src/Foo.tsx", ⟨9, 12⟩⟩] }]
  symbolTypes := [(0, .any), (1, .string)]

def namesake (symbol : Nat) : Offer where
  document := .ofFile "/p/src/App.tsx" "<F <F" .empty
  offset := 2 + 3 * symbol
  entry := { name := "Foo", kind := "const", sortText := "11", symbol := some symbol }

theorem namesake_of_component_is_kept :
    ∃ result alone,
      (((Conversation.fresh elementsOnly 300).sayAll
        [(0, (namesake 0).call namesakes)]).session.complete
          (fun _ _ _ => some (namesake 1).raw) ((namesake 1).host namesakes) 0).value =
        some (.enriched result) ∧
      ((Conversation.fresh elementsOnly 300).session.complete
          (fun _ _ _ => some (namesake 1).raw) ((namesake 1).host namesakes) 0).value =
        some (.enriched alone) ∧
      result.entries.length = 1 ∧ alone.entries.length = 0 :=
  answers_of_clash namesakes (namesake 0) (namesake 1)
    ⟨by decide +kernel, by decide +kernel, by decide +kernel, by decide +kernel⟩ 300

end CodeCompletion
