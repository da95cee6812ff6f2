import CodeCompletion.Proofs.Enrichment.FinalKeys

namespace CodeCompletion

/-- The entry as it is shown; its key is not. -/
def Entry.shown (e : Entry) : Entry := e.mapKey fun _ => ""

/-! ### The last sort -/

theorem map_shown_mapIdx (entries : List Entry) (f : Nat → String → String) :
    (entries.mapIdx fun i e => e.mapKey (f i)).map Entry.shown = entries.map Entry.shown := by
  apply List.ext_getElem?
  intro i
  rw [List.getElem?_map, List.getElem?_map, List.getElem?_mapIdx, Option.map_map]
  rfl

theorem map_finalizeKeys {α : Type} (f : Entry → α) (hf : ∀ e, f e.shown = f e)
    (entries : List Entry) : (finalizeKeys entries).map f = (Entry.sortByKey entries).map f := by
  have hblind : f ∘ Entry.shown = f := funext hf
  have hshown := congrArg (List.map f) (map_shown_mapIdx (Entry.sortByKey entries)
    (SortKey.unique (SortKey.indexWidth entries.length)))
  rw [List.map_map, List.map_map, hblind] at hshown
  exact hshown

theorem map_shown_finalizeKeys (entries : List Entry) (h : Entry.SortedByKey entries) :
    (finalizeKeys entries).map Entry.shown = entries.map Entry.shown := by
  rw [map_finalizeKeys Entry.shown fun _ => rfl, Entry.sortByKey_of_sortedByKey entries h]

theorem ruledEntries_eq (r : Request) (p : Progress) :
    ruledEntries r p = (applyRules r p).entries := by
  unfold ruledEntries
  split
  · rename_i hempty
    have hrules : r.settings.replaceSuggestions = [] := List.isEmpty_iff.mp hempty
    have hunmark : (p.entries.map (Marked.mk · false)).map (·.entry) = p.entries := by
      rw [List.map_map]
      exact List.map_id _
    simp only [applyRules, Rule.applyAll, hrules]
    exact hunmark.symm
  · rfl

theorem map_shown_finishList (r : Request) (p : Progress)
    (h : Entry.SortedByKey (applyRules r p).entries) :
    (finishList r p).entries.map Entry.shown = (applyRules r p).entries.map Entry.shown := by
  rw [entries_finishList, ruledEntries_eq]
  split
  · exact map_shown_finalizeKeys _ h
  · rfl

/-! ### One move -/

namespace Rule

theorem landing_eq (index : Nat) (offset : Int) (last : Nat) :
    (landing index offset last : Int) = max 0 (min (last : Int) (index + offset)) := by
  unfold landing
  omega

/-- A rule that moves one entry takes out the first that it picks and puts it in at its landing
place. -/
theorem scan_move (rule : Rule) (offset : Int) (front : List Marked) (m : Marked)
    (coming : List Marked) (deferred : DeferredMap)
    (haction : rule.action = .move offset) (hone : rule.processMany = false)
    (hfront : ∀ n ∈ front, rule.actsOn n = false) (hm : rule.actsOn m = true) :
    (scan rule [] (front ++ m :: coming) deferred).1 =
      (front ++ coming).insertIdx (landing front.length offset (front.length + coming.length))
        (movedTo front.reverse m coming
          (landing front.length offset (front.length + coming.length))) := by
  rw [scan_append rule front [] _ deferred hfront, List.append_nil, scan, if_pos hm]
  dsimp only
  rw [hone, haction, if_neg Bool.false_ne_true]
  have hlist := list_act_move front.reverse m coming deferred offset
  rw [List.reverse_reverse, List.length_reverse] at hlist
  exact hlist

theorem map_shown_applyAll_of_move (rules : List Rule) (document : Document) (entries : List Entry)
    (deferred : DeferredMap) (rule : Rule) (offset : Int) (i : Nat) (e : Entry)
    (hrules : rules.filter (·.appliesTo document) = [rule])
    (haction : rule.action = .move offset) (hone : rule.processMany = false)
    (he : entries[i]? = some e) (hpicks : rule.picks e = true)
    (hfirst : ∀ e' ∈ entries.take i, rule.picks e' = false) :
    (applyAll rules document entries deferred).1.map Entry.shown =
      ((entries.map Entry.shown).eraseIdx i).insertIdx (landing i offset (entries.length - 1))
        e.shown := by
  obtain ⟨hi, rfl⟩ := List.getElem?_eq_some_iff.mp he
  have hcut : entries = entries.take i ++ entries[i] :: entries.drop (i + 1) := by
    rw [← List.drop_eq_getElem_cons hi, List.take_append_drop]
  have hsplit := congrArg (List.map (Marked.mk · false)) hcut
  rw [List.map_append, List.map_cons] at hsplit
  have hfront : ∀ n ∈ (entries.take i).map (Marked.mk · false), rule.actsOn n = false := by
    intro n hn
    obtain ⟨e', he', rfl⟩ := List.mem_map.mp hn
    rw [actsOn, hfirst e' he', Bool.and_false]
  have hm : rule.actsOn ⟨entries[i], false⟩ = true := by
    rw [actsOn, hpicks]
    rfl
  have hscan := scan_move rule offset _ _ ((entries.drop (i + 1)).map (Marked.mk · false)) deferred
    haction hone hfront hm
  have hlen : ((entries.take i).map (Marked.mk · false)).length = i := by
    rw [List.length_map, List.length_take, Nat.min_eq_left (Nat.le_of_lt hi)]
  have hlast : i + ((entries.drop (i + 1)).map (Marked.mk · false)).length =
      entries.length - 1 := by
    rw [List.length_map, List.length_drop]
    omega
  rw [hlen, hlast, ← hsplit] at hscan
  have happly : (applyAll rules document entries deferred).1 =
      (scan rule [] (entries.map (Marked.mk · false)) deferred).1.map (·.entry) := by
    simp only [applyAll, hrules]
    rfl
  rw [happly, hscan, List.map_map, List.map_insertIdx, List.eraseIdx_map,
    List.eraseIdx_eq_take_drop_succ, List.map_append, List.map_append, List.map_map, List.map_map]
  rfl

end Rule

/-- Rules that set no key leave the order of keys as it is, so the last sort moves nothing: the user
sees what the rules made. With a single rule that moves one entry, that entry is seen at its landing
place and all others as they were. -/
theorem shown_order_of_rules (r : Request) (p : Progress)
    (hkeys : ∀ rule ∈ (Rule.parseAll 0 r.settings.replaceSuggestions).1,
      rule.appliesTo r.document = true → rule.action.key? = none)
    (hsorted : Entry.SortedByKey p.entries) :
    (∀ entries effects, (stagedProgress r entries effects).effects.cancelled = false →
      Entry.SortedByKey (stagedProgress r entries effects).entries) ∧
    Entry.SortedByKey (applyRules r p).entries ∧
    Entry.sortByKey (applyRules r p).entries = (applyRules r p).entries ∧
    (finishList r p).entries.map Entry.shown = (applyRules r p).entries.map Entry.shown ∧
    ∀ (rule : Rule) (offset : Int) (i : Nat) (e : Entry),
      (Rule.parseAll 0 r.settings.replaceSuggestions).1.filter (·.appliesTo r.document) = [rule] →
      rule.action = .move offset → rule.processMany = false →
      p.entries[i]? = some e → rule.picks e = true →
      (∀ e' ∈ p.entries.take i, rule.picks e' = false) →
      ∃ target : Nat, (target : Int) = max 0 (min ((p.entries.length : Int) - 1) (i + offset)) ∧
        ((finishList r p).entries.map Entry.shown)[target]? = some e.shown ∧
        ((finishList r p).entries.map Entry.shown).eraseIdx target =
          (p.entries.map Entry.shown).eraseIdx i := by
  have hruled : Entry.SortedByKey (applyRules r p).entries :=
    Rule.sortedByKey_applyAll _ r.document p.entries p.deferred hkeys hsorted
  have hshown := map_shown_finishList r p hruled
  refine ⟨fun entries effects => sortedByKey_runStages r _, hruled,
    Entry.sortByKey_of_sortedByKey _ hruled, hshown, ?_⟩
  intro rule offset i e hrules haction hone he hpicks hfirst
  have hi : i < p.entries.length := (List.getElem?_eq_some_iff.mp he).1
  have hmoved : (applyRules r p).entries.map Entry.shown =
      ((p.entries.map Entry.shown).eraseIdx i).insertIdx
        (Rule.landing i offset (p.entries.length - 1)) e.shown :=
    Rule.map_shown_applyAll_of_move _ r.document p.entries p.deferred rule offset i e hrules
      haction hone he hpicks hfirst
  have hlen : ((p.entries.map Entry.shown).eraseIdx i).length = p.entries.length - 1 := by
    rw [List.length_eraseIdx_of_lt (by rw [List.length_map]; exact hi), List.length_map]
  refine ⟨Rule.landing i offset (p.entries.length - 1), ?_, ?_, ?_⟩
  · rw [Rule.landing_eq]
    omega
  · rw [hshown, hmoved, List.getElem?_insertIdx_self, hlen]
    exact if_pos (Rule.landing_le ..)
  · rw [hshown, hmoved, List.eraseIdx_insertIdx_self]

/-! ### A move past the end -/

/-- A rule that moves `b` nine places down. -/
def sinkingRule : Rule where
  pattern := .exact "b"
  action := .move 9

def sinkingRequest : Request :=
  let settings := { replaceSuggestions := [.obj [("movePos", .int 9), ("suggestion", .str "b")]] }
  Session.stageRequest { settings } Session.emptyFileRequest { entries := [] }

def tiedProgress : Progress where
  entries := [{ name := "a", kind := .variable, sortText := "1" },
    { name := "b", kind := .variable, sortText := "11" },
    { name := "c", kind := .variable, sortText := "2" },
    { name := "d", kind := .variable, sortText := "2" }]
  effects := {}

theorem shown_order_of_sinking_rule :
    Rule.parseAll 0 sinkingRequest.settings.replaceSuggestions = ([sinkingRule], []) ∧
    Entry.SortedByKey tiedProgress.entries ∧
    Entry.SortedByKey (applyRules sinkingRequest tiedProgress).entries ∧
    ∃ target : Nat, (target : Int) = max 0 (min (4 - 1) (1 + 9)) ∧
      ((finishList sinkingRequest tiedProgress).entries.map Entry.shown)[target]? =
        some { name := "b", kind := .variable, sortText := "" } ∧
      ((finishList sinkingRequest tiedProgress).entries.map Entry.shown).eraseIdx target =
        [{ name := "a", kind := .variable, sortText := "" },
         { name := "c", kind := .variable, sortText := "" },
         { name := "d", kind := .variable, sortText := "" }] := by
  have hparse : Rule.parseAll 0 sinkingRequest.settings.replaceSuggestions =
      ([sinkingRule], []) := rfl
  have hsorted : Entry.SortedByKey tiedProgress.entries :=
    (Entry.isSortedByKey_iff tiedProgress.entries).mp (by decide)
  have hkeys : ∀ rule ∈ (Rule.parseAll 0 sinkingRequest.settings.replaceSuggestions).1,
      rule.appliesTo sinkingRequest.document = true → rule.action.key? = none := by
    intro rule hrule _
    rw [hparse, List.mem_singleton] at hrule
    rw [hrule]
    rfl
  obtain ⟨_, hruled, _, _, hmove⟩ :=
    shown_order_of_rules sinkingRequest tiedProgress hkeys hsorted
  refine ⟨hparse, hsorted, hruled, ?_⟩
  exact hmove sinkingRule 9 1 _ rfl rfl rfl rfl (by decide) (by decide)

end CodeCompletion
