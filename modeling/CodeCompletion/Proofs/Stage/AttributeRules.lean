import CodeCompletion.Proofs.Enrichment.Insertions
import CodeCompletion.Proofs.Entry.StableSort
import CodeCompletion.Proofs.Pattern.Matching
import CodeCompletion.Proofs.Settings.Keys

namespace CodeCompletion.Stage

/-! ### Keys -/

/-- The patterns of a key for tags and for attributes: what stands in front of its first `#` and
behind it. A key without `#` is for all tags. -/
def keyParts (key : String) : String × String :=
  match Text.cutFirst? (· == '#') key.toList with
  | none => ("*", key)
  | some (tag, attr) => (String.ofList tag, String.ofList attr)

theorem patternTexts_eq (key : String) :
    ScopedRule.patternTexts key = [(keyParts key).1, (keyParts key).2] := by
  unfold ScopedRule.patternTexts keyParts
  cases Text.cutFirst? (· == '#') key.toList with
  | none =>
    dsimp only [Option.getD_none]
    rw [String.ofList_toList]
  | some cut => rfl

def KeyCovers (key tag attr : String) : Prop :=
  NamePattern.StandsFor (keyParts key).1 tag ∧ NamePattern.StandsFor (keyParts key).2 attr

/-- How many steps a key is away from naming one attribute of one tag; a pattern for tags counts for
more than one for attributes. -/
def keyTier (key : String) : Nat :=
  (if '*' ∈ (keyParts key).1.toList then 2 else 0) + (if '*' ∈ (keyParts key).2.toList then 1 else 0)

/-- Whether a rule is the one that counts for an attribute of a tag: of the rules that are for it the
first one by tier and then by the bytes of the key. -/
structure RuleCounts (rules : List (String × AttributeRule)) (tag attr : String)
    (item : String × AttributeRule) : Prop where
  mem : item ∈ rules
  covers : KeyCovers item.1 tag attr
  least : ∀ other ∈ rules, KeyCovers other.1 tag attr → keyTier item.1 < keyTier other.1 ∨
    keyTier item.1 = keyTier other.1 ∧ (other = item ∨ Settings.Precedes item.1 other.1)

def patchedCopy (e : Entry) (patch : AttributePatch) : Entry :=
  { e with insertText := some (Snippet.escape e.name ++ patch.insertText), isSnippet := true }

/-- What the rules for the attributes of a tag put in the place of an entry. -/
inductive AttributeBlock (rules : List (String × AttributeRule)) (tag : String) (e : Entry) :
    List Entry → Prop where
  | unruled (h : ∀ item ∈ rules, ¬ KeyCovers item.1 tag e.name) : AttributeBlock rules tag e [e]
  | shown (key : String) (h : RuleCounts rules tag e.name (key, .shown true)) :
    AttributeBlock rules tag e [e]
  | hidden (key : String) (h : RuleCounts rules tag e.name (key, .shown false)) :
    AttributeBlock rules tag e []
  | alone (key : String) (patch : AttributePatch)
    (h : RuleCounts rules tag e.name (key, .patched patch)) (hplace : patch.unedited = .nowhere) :
    AttributeBlock rules tag e [patchedCopy e patch]
  | above (key : String) (patch : AttributePatch)
    (h : RuleCounts rules tag e.name (key, .patched patch)) (hplace : patch.unedited = .above) :
    AttributeBlock rules tag e [e, patchedCopy e patch]
  | below (key : String) (patch : AttributePatch)
    (h : RuleCounts rules tag e.name (key, .patched patch)) (hplace : patch.unedited = .below) :
    AttributeBlock rules tag e [patchedCopy e patch, e]

/-! ### Reading keys -/

namespace ScopedRule

def ofKey (item : String × AttributeRule) : ScopedRule where
  tag := .ofText (keyParts item.1).1
  attr := .ofText (keyParts item.1).2
  rule := item.2

variable (item : String × AttributeRule)

theorem parse_of_readable (h : (patternTexts item.1).all NamePattern.isReadable = true) :
    parse item.1 item.2 = .ok (ofKey item) := by
  rw [patternTexts_eq, List.all_cons, List.all_cons, List.all_nil, Bool.and_true, Bool.and_eq_true]
    at h
  have htag := NamePattern.compile_eq (keyParts item.1).1
  have hattr := NamePattern.compile_eq (keyParts item.1).2
  rw [if_pos h.1] at htag
  rw [if_pos h.2] at hattr
  unfold parse ofKey
  unfold keyParts at htag hattr ⊢
  cases hcut : Text.cutFirst? (· == '#') item.1.toList with
  | none =>
    rw [hcut] at htag hattr
    dsimp only [Option.getD_none] at htag hattr ⊢
    rw [String.ofList_toList, hattr, show String.ofList ['*'] = "*" from rfl, htag]
    rfl
  | some cut =>
    rw [hcut] at htag hattr
    dsimp only [Option.getD_some] at htag hattr ⊢
    rw [htag, hattr]
    rfl

theorem tier_ofKey : (ofKey item).tier = keyTier item.1 := by
  have htag := NamePattern.isWildcard_ofText (keyParts item.1).1
  have hattr := NamePattern.isWildcard_ofText (keyParts item.1).2
  rw [tier, keyTier]
  simp only [ofKey, ← htag, ← hattr]
  cases (NamePattern.ofText (keyParts item.1).1).isWildcard <;>
    cases (NamePattern.ofText (keyParts item.1).2).isWildcard <;> rfl

theorem covers_ofKey_iff (tag attr : String) :
    (ofKey item).covers tag attr = true ↔ KeyCovers item.1 tag attr := by
  rw [covers, Bool.and_eq_true]
  exact and_congr (NamePattern.accepts_ofText_iff _ tag) (NamePattern.accepts_ofText_iff _ attr)

end ScopedRule

def tierLe (a b : String × AttributeRule) : Bool := keyTier a.1 ≤ keyTier b.1

theorem mapM_eq_ok_map {ε α β : Type} (f : α → Except ε β) (g : α → β) (xs : List α)
    (h : ∀ x ∈ xs, f x = .ok (g x)) : xs.mapM f = .ok (xs.map g) := by
  induction xs with
  | nil => rfl
  | cons x xs ih =>
    obtain ⟨hx, hxs⟩ := List.forall_mem_cons.mp h
    rw [List.mapM_cons, hx, ih hxs]
    rfl

theorem scopedRules_of_readable (rules : List (String × AttributeRule))
    (h : ∀ item ∈ rules, (ScopedRule.patternTexts item.1).all NamePattern.isReadable = true) :
    scopedRules rules = .ok ((rules.mergeSort tierLe).map ScopedRule.ofKey) := by
  have hread := mapM_eq_ok_map (fun item : String × AttributeRule => ScopedRule.parse item.1 item.2)
    ScopedRule.ofKey rules fun item hitem => ScopedRule.parse_of_readable item (h item hitem)
  have hsort : (rules.mergeSort tierLe).map ScopedRule.ofKey =
      (rules.map ScopedRule.ofKey).mergeSort fun a b => a.tier ≤ b.tier :=
    List.map_mergeSort fun a _ b _ => by rw [ScopedRule.tier_ofKey, ScopedRule.tier_ofKey]; rfl
  rw [hsort, scopedRules, hread]
  rfl

/-! ### The rule that counts -/

/-- The first rule for an attribute in the order of tiers is the one that counts. -/
theorem ruleCounts_of_first (rules : List (String × AttributeRule))
    (hordered : rules.Pairwise fun a b => Settings.Precedes a.1 b.1) (tag attr : String)
    (item : String × AttributeRule)
    (h : (rules.mergeSort tierLe).find? (fun item => (ScopedRule.ofKey item).covers tag attr) =
      some item) : RuleCounts rules tag attr item where
  mem := List.mem_mergeSort.mp (List.mem_of_find?_eq_some h)
  covers :=
    (ScopedRule.covers_ofKey_iff item tag attr).mp (List.find?_eq_some_iff_append.mp h).1
  least other hother hcovers := by
    have htrans (a b c : String × AttributeRule) (hab : tierLe a b = true) (hbc : tierLe b c = true) :
        tierLe a c = true := by
      simp only [tierLe, decide_eq_true_eq] at *
      omega
    have htotal (a b : String × AttributeRule) : (tierLe a b || tierLe b a) = true := by
      simp only [tierLe, Bool.or_eq_true, decide_eq_true_eq]
      omega
    obtain ⟨hle, hties⟩ := StableSort.first_mergeSort htrans htotal _ rules item h _ hordered other
      hother ((ScopedRule.covers_ofKey_iff other tag attr).mpr hcovers)
    simp only [tierLe, decide_eq_true_eq] at hle hties
    rcases Nat.lt_or_eq_of_le hle with hlt | heq
    · exact Or.inl hlt
    · exact Or.inr ⟨heq, hties heq.ge⟩

theorem attributeBlock_of_rule (rules : List (String × AttributeRule)) (tag : String) (e : Entry)
    (item : String × AttributeRule) (h : RuleCounts rules tag e.name item) :
    AttributeBlock rules tag e (((ScopedRule.ofKey item).apply e).getD [e]) := by
  obtain ⟨key, rule⟩ := item
  cases rule with
  | shown visible =>
    cases visible with
    | true => exact .shown key h
    | false => exact .hidden key h
  | patched patch =>
    obtain ⟨text, place⟩ := patch
    cases place with
    | above => exact .above key _ h rfl
    | below => exact .below key _ h rfl
    | nowhere => exact .alone key _ h rfl

/-! ### Blocks -/

section Blocks

variable (r : Request) (tag name : Nat)

/-- Where the attributes of a tag are listed and all keys can be read, the list becomes one block
for each entry, in the order of the entries. -/
theorem attributes_become_blocks
    (htag : attributeListTag? r.tree r.ancestors = some tag)
    (hname : r.tree.firstChild? tag = some name)
    (hread : ∀ item ∈ r.settings.attributeRules,
      (ScopedRule.patternTexts item.1).all NamePattern.isReadable = true)
    (hordered : r.settings.attributeRules.Pairwise fun a b => Settings.Precedes a.1 b.1) :
    ∃ block : Entry → List Entry,
      (∀ e, AttributeBlock r.settings.attributeRules (r.tree.text name r.document.text) e (block e)) ∧
      ∀ entries, ∃ o, (attributes r entries).value = .ok o ∧
        o.entriesOr entries = entries.flatMap block := by
  have hscoped := scopedRules_of_readable r.settings.attributeRules hread
  refine ⟨fun e => ((attributeRule? r e.name).bind (·.apply e)).getD [e], fun e => ?_,
    fun entries => ?_⟩
  · have hrule : attributeRule? r e.name =
        ((r.settings.attributeRules.mergeSort tierLe).find? fun item =>
          (ScopedRule.ofKey item).covers (r.tree.text name r.document.text) e.name).map
            ScopedRule.ofKey := by
      simp only [attributeRule?, htag, hname, hscoped, Option.bind_eq_bind, Option.bind_some,
        Except.toOption, List.find?_map]
      rfl
    dsimp only
    rw [hrule]
    cases hfirst : (r.settings.attributeRules.mergeSort tierLe).find? fun item =>
        (ScopedRule.ofKey item).covers (r.tree.text name r.document.text) e.name with
    | none =>
      refine .unruled fun item hitem hcovers => ?_
      exact List.find?_eq_none.mp hfirst item (List.mem_mergeSort.mpr hitem)
        ((ScopedRule.covers_ofKey_iff item _ _).mpr hcovers)
    | some item =>
      exact attributeBlock_of_rule _ _ e item (ruleCounts_of_first _ hordered _ _ item hfirst)
  · have hvalue : (attributes r entries).value = .ok (StageRun.effect attributes r entries) := by
      simp only [StageRun.effect, attributes, htag, hname, hscoped, StageRun.value_replace]
    exact ⟨_, hvalue, entriesOr_effect_attributes r⟩

end Blocks

/-- A request for the attributes of a `div`, with keys that overlap. -/
def divRequest : Request :=
  let settings : Settings := {
    attributeRules := [("*", .shown false),
      ("class*", .patched { insertText := "=$1" }),
      ("div#class*", .patched { insertText := "=\"$1\"", unedited := .above }),
      ("id", .shown true)] }
  let request : HostRequest := {
    document := .ofFile "/p/src/App.tsx" "<div c />" attributeTree
    offset := 6
    checker := Program.checker {} }
  Session.stageRequest { settings } request attributeNames

theorem attributes_become_blocks_of_div :
    attributeListTag? divRequest.tree divRequest.ancestors = some 1 ∧
    divRequest.tree.firstChild? 1 = some 2 ∧
    (∀ item ∈ divRequest.settings.attributeRules,
      (ScopedRule.patternTexts item.1).all NamePattern.isReadable = true) ∧
    divRequest.settings.attributeRules.Pairwise (fun a b => Settings.Precedes a.1 b.1) ∧
    ∃ block : Entry → List Entry,
      (∀ e, AttributeBlock divRequest.settings.attributeRules "div" e (block e)) ∧
      ∀ entries, ∃ o, (attributes divRequest entries).value = .ok o ∧
        o.entriesOr entries = entries.flatMap block := by
  have htag : attributeListTag? divRequest.tree divRequest.ancestors = some 1 := by decide +kernel
  have hname : divRequest.tree.firstChild? 1 = some 2 := by decide +kernel
  have htext : divRequest.tree.text 2 divRequest.document.text = "div" := by decide +kernel
  have hread : ∀ item ∈ divRequest.settings.attributeRules,
      (ScopedRule.patternTexts item.1).all NamePattern.isReadable = true := by decide +kernel
  have hordered : divRequest.settings.attributeRules.Pairwise fun a b =>
      Settings.Precedes a.1 b.1 := by decide +kernel
  have hblocks := attributes_become_blocks divRequest 1 2 htag hname hread hordered
  rw [htext] at hblocks
  exact ⟨htag, hname, hread, hordered, hblocks⟩

/- The most exact key counts, and the key of all attributes only for what no other key is for. -/
example : (StageRun.effect attributes divRequest
      [{ name := "className", kind := .property, sortText := "11" },
       { name := "id", kind := .property, sortText := "11" },
       { name := "onClick", kind := .property, sortText := "11" }]).entriesOr [] =
    [{ name := "className", kind := .property, sortText := "11" },
     { name := "className", kind := .property, sortText := "11",
       insertText := some "className=\"$1\"", isSnippet := true },
     { name := "id", kind := .property, sortText := "11" }] := by
  cbv

end CodeCompletion.Stage
