import CodeCompletion.Proofs.Enrichment.Alike
import CodeCompletion.Proofs.Stage.Ranks
import CodeCompletion.Proofs.Syntax.Build
import CodeCompletion.Proofs.Types.Texts

/-!
# Marks in what is inserted

A stage that writes what is inserted puts it together from what was inserted so far, from names and
literals inside types, from the document and from the settings. Only the stage of the user's
attribute rules takes the name of an entry instead, and the name may have been marked.
-/

namespace CodeCompletion

/-- What requests give to stages to write has no marks. -/
structure Request.Unmarked (r : Request) : Prop where
  document : ¬ HasMark r.document.text
  symbolTypes : ∀ id t, r.checker.typeOfSymbol id = some t → ∀ text ∈ t.texts, ¬ HasMark text
  nodeTypes : ∀ node t, r.checker.typeOfNode node = some t → ∀ text ∈ t.texts, ¬ HasMark text
  namespaces : ∀ target ∈ r.settings.namespaceImports, ¬ HasMark target.2.name
  attributes : ∀ rule ∈ r.settings.attributeRules, ∀ patch, rule.2 = .patched patch →
    ¬ HasMark patch.insertText

/-- Where parameters are shown as they are declared, no text inside a type ends like the mark of the
standard library begins; the bar of a union would follow it behind a blank. -/
def Request.DeclaresPlainly (r : Request) : Prop :=
  r.settings.methodSnippets.insertText = .declaration → ∀ id t,
    r.checker.typeOfSymbol id = some t → ∀ text ∈ t.texts, text.toList.getLast? ≠ some '🏛'

def Entry.ShowsMark (entries : List Entry) : Prop := ∃ e ∈ entries, HasMark e.insertion

/-! ### Texts that stages write -/

theorem unmarked_of_infix {s t : String} (h : ¬ HasMark t) (hwithin : s.toList <:+: t.toList) :
    ¬ HasMark s := fun ⟨mark, hmark, hin⟩ => h ⟨mark, hmark, hin.trans hwithin⟩

theorem Text.slice_infix (start stop : Nat) (cs : List Char) : slice start stop cs <:+: cs := by
  unfold slice
  split
  · have hback : (splitAt start cs).2 <:+ cs := ⟨(splitAt start cs).1, splitAt_append start cs⟩
    have hfront : (splitAt (stop - start) (splitAt start cs).2).1 <+: (splitAt start cs).2 :=
      ⟨_, splitAt_append (stop - start) (splitAt start cs).2⟩
    exact hfront.isInfix.trans hback.isInfix
  · exact List.nil_infix

theorem SyntaxTree.unmarked_text (tree : SyntaxTree) (id : Nat) {source : String}
    (h : ¬ HasMark source) : ¬ HasMark (tree.text id source) := by
  unfold SyntaxTree.text
  cases tree.span? id with
  | none =>
    have hempty : ¬ HasMark "" := by decide
    exact hempty
  | some span =>
    refine unmarked_of_infix h ?_
    dsimp only [Option.map_some, Option.getD_some]
    rw [Span.slice, String.toList_ofList]
    exact Text.slice_infix _ _ _

theorem Text.dropTail?_prefix (tail cs stem : List Char) (h : dropTail? tail cs = some stem) :
    stem <+: cs := by
  unfold dropTail? at h
  split at h
  · cases h
    exact List.take_prefix _ _
  · cases h

namespace Snippet

theorem unmarked_escape {text : String} (h : ¬ HasMark text) : ¬ HasMark (escape text) :=
  unmarked_escapeWhere _ h

theorem mem_of_mem_keptParams (skip : SkippedParams) (params : List Param) (p : Param)
    (hp : p ∈ keptParams skip params) : p ∈ params := by
  have hsignificant := (List.mem_filter.mp hp).1
  have hdropped := (List.dropWhile_sublist _).subset (List.mem_reverse.mp hsignificant)
  exact List.mem_reverse.mp hdropped

theorem unmarked_call {name : String} (hname : ¬ HasMark name) (s : Signature) (settings : CallSnippets)
    (hparams : ∀ p ∈ s.params, ¬ HasMark (paramText settings.insertText p)) :
    ¬ HasMark (call name s settings) := by
  have hopen : Solid "(" := by decide
  have hclose : Plain ")" := by decide
  unfold call
  refine (Plain.append ((hopen.after (unmarked_escape hname)).append ?_) hclose).unmarked
  split
  · split <;> decide
  · refine plain_placeholders _ fun text htext => ?_
    obtain ⟨p, hp, rfl⟩ := List.mem_map.mp htext
    exact hparams p (mem_of_mem_keptParams _ _ p hp)

end Snippet

theorem StageRun.trace_replace (edit : Entry → Traced (Option (List Entry))) (entries : List Entry) :
    (replace edit entries).trace = (entries.map fun e => (edit e).trace).flatten := by
  rw [replace, Traced.trace_bind, Traced.each]
  dsimp only [Traced.trace_pure, Traced.trace_bind]
  rw [List.append_nil, List.flatMap_map, List.flatMap_def]
  simp

namespace Stage

theorem unmarked_singular (name item : String) (h : ¬ HasMark name)
    (hitem : singular? name = some item) : ¬ HasMark item := by
  have hpart (cs : List Char) (hcs : cs <:+: name.toList) : ¬ HasMark (String.ofList cs) :=
    unmarked_of_infix h (String.toList_ofList ▸ hcs)
  unfold singular? at hitem
  dsimp only at hitem
  split at hitem
  · rename_i stem hstem
    split at hitem
    · cases hitem
    · cases hitem
      have hy : Solid "y" := by decide
      have hjoined := hy.after (hpart stem (Text.dropTail?_prefix _ _ stem hstem).isInfix)
      rw [String.ofList_append]
      exact hjoined.unmarked
  · split at hitem
    · cases hitem
      exact hpart _ ((List.dropLast_prefix _).trans (List.dropLast_prefix _)).isInfix
    · split at hitem
      · rename_i stem hstem
        split at hitem
        · cases hitem
        · cases hitem
          exact hpart stem (Text.dropTail?_prefix _ _ stem hstem).isInfix
      · cases hitem

theorem unmarked_methodStub (name : String) (hname : ¬ HasMark name) (s : Signature)
    (hparams : ∀ p ∈ s.params, ¬ HasMark p.name) : ¬ HasMark (methodStub name s).insertText := by
  have hopen : Solid "(" := by decide
  have hclose : ¬ HasMark ") \x7b\n\t$0\n\x7d" := by decide
  have hhead := hopen.after (Snippet.unmarked_escape hname)
  refine unmarked_append (hhead.append (Snippet.plain_placeholders _ fun text htext => ?_)) hclose
  obtain ⟨p, hp, rfl⟩ := List.mem_map.mp htext
  exact hparams p (Snippet.mem_of_mem_keptParams _ _ p hp)

theorem unmarked_valueStub (name value detail : String) (hname : ¬ HasMark name)
    (hvalue : ¬ HasMark value) : ¬ HasMark (valueStub name value detail).insertText := by
  have hcolon : Solid ": " := by decide
  exact unmarked_append (hcolon.after (Snippet.unmarked_escape hname)) hvalue

theorem mapM_stringLiteral_iff (ms : List Ty) (values : List String) :
    ms.mapM stringLiteral? = some values ↔ ms = values.map .stringLiteral := by
  induction ms generalizing values with
  | nil => cases values <;> simp
  | cons t ms ih =>
    have hfirst (value : String) : stringLiteral? t = some value ↔ t = .stringLiteral value := by
      unfold stringLiteral?
      split
      · simp
      · rename_i hother
        exact iff_of_false nofun fun ht => hother value ht
    rw [List.mapM_cons]
    constructor
    · intro h
      obtain ⟨value, hvalue, h⟩ := Option.bind_eq_some_iff.mp h
      obtain ⟨rest, hrest, h⟩ := Option.bind_eq_some_iff.mp h
      cases h
      rw [List.map_cons, ← (hfirst value).mp hvalue, ← (ih rest).mp hrest]
    · intro h
      cases values with
      | nil => cases h
      | cons value rest =>
        rw [List.map_cons, List.cons_eq_cons] at h
        rw [(hfirst value).mpr h.1, (ih rest).mpr h.2]
        rfl

/-- The values of stubs that do not depend on what is inside the type. -/
def fixedValues (quote : String) : List String :=
  ["[$1]", "\x7b$1\x7d", quote ++ "$1" ++ quote, Snippet.choice 1 ["true", "false"], "$1"]

/-- A stub is a method, a choice of literals for a union of them, or has a fixed value. -/
theorem stub_cases (name : String) (t : Ty) (moreVariants : Bool) (quote : String) (stub : Stub)
    (h : stub? name t moreVariants quote = some stub) :
    (∃ s, t.callSignatures = [s] ∧ stub = methodStub name s) ∨
      (∃ values detail, t = .union (values.map .stringLiteral) ∧
        stub = valueStub name (quote ++ Snippet.choice 1 values ++ quote) detail) ∨
      (∀ values : List String, t ≠ .union (values.map .stringLiteral)) ∧
        ∃ value ∈ fixedValues quote, ∃ detail, stub = valueStub name value detail := by
  have hfixed (value detail : String) (hvalue : value ∈ fixedValues quote)
      (hstub : some (valueStub name value detail) = some stub) :
      ∃ value ∈ fixedValues quote, ∃ detail, stub = valueStub name value detail :=
    ⟨value, hvalue, detail, (Option.some_inj.mp hstub).symm⟩
  unfold stub? at h
  split at h
  · rename_i s hs
    exact Or.inl ⟨s, hs, (Option.some_inj.mp h).symm⟩
  · refine Or.inr ?_
    split at h
    · exact Or.inr ⟨nofun, hfixed _ _ (by simp [fixedValues]) h⟩
    · split at h
      · rename_i hobject
        refine Or.inr ⟨fun values ht => ?_, hfixed _ _ (by simp [fixedValues]) h⟩
        rw [ht] at hobject
        cases hobject
      · split at h
        · cases h
        · split at h
          · exact Or.inr ⟨nofun, hfixed _ _ (by simp [fixedValues]) h⟩
          · exact Or.inr ⟨nofun, hfixed _ _ (by simp [fixedValues]) h⟩
          · cases h
          · cases h
          · cases h
          · split at h
            · rename_i values hvalues
              rw [mapM_stringLiteral_iff] at hvalues
              exact Or.inl ⟨values, _, congrArg Ty.union hvalues, (Option.some_inj.mp h).symm⟩
            · rename_i hnone
              refine Or.inr ⟨fun values ht => ?_, hfixed _ _ (by simp [fixedValues]) h⟩
              rw [(mapM_stringLiteral_iff _ values).mpr (Ty.union.inj ht)] at hnone
              cases hnone
          · rename_i hunion
            exact Or.inr ⟨fun values ht => hunion _ ht, hfixed _ _ (by simp [fixedValues]) h⟩

theorem unmarked_fixedValues (quotes : QuoteStyle) :
    ∀ value ∈ fixedValues quotes.mark, ¬ HasMark value := by
  cases quotes <;> decide

theorem unmarked_stub (name : String) (t : Ty) (moreVariants : Bool) (quotes : QuoteStyle)
    (stub : Stub) (hname : ¬ HasMark name) (ht : ∀ text ∈ t.texts, ¬ HasMark text)
    (h : stub? name t moreVariants quotes.mark = some stub) : ¬ HasMark stub.insertText := by
  have hquote : Plain quotes.mark := by cases quotes <;> decide
  rcases stub_cases name t moreVariants quotes.mark stub h with
    ⟨s, hs, rfl⟩ | ⟨values, detail, rfl, rfl⟩ | ⟨-, value, hvalue, detail, rfl⟩
  · have hmem : s ∈ t.callSignatures := hs ▸ List.mem_singleton.mpr rfl
    exact unmarked_methodStub name hname s fun p hp =>
      ht p.name (t.mem_texts_of_signature s (Or.inl hmem) p hp).1
  · refine unmarked_valueStub name _ detail hname ((hquote.append ?_).append hquote).unmarked
    refine Snippet.plain_choice 1 _ fun value hvalue => ht value ?_
    exact Ty.texts_subset_of_mem _ _ (List.mem_map_of_mem hvalue) (List.mem_singleton.mpr rfl)
  · exact unmarked_valueStub name value detail hname (unmarked_fixedValues quotes value hvalue)

theorem mem_arrange (place : UneditedPlace) (e edited e' : Entry)
    (h : e' ∈ place.arrange e edited) : e' = e ∨ e' = edited := by
  cases place with
  | above => simpa [UneditedPlace.arrange] using h
  | below => exact Or.symm (by simpa [UneditedPlace.arrange] using h)
  | nowhere => exact Or.inr (List.mem_singleton.mp h)

theorem edited_mem_arrange (place : UneditedPlace) (e edited : Entry) :
    edited ∈ place.arrange e edited := by
  cases place with
  | above => exact List.mem_cons_of_mem _ (List.mem_cons_self ..)
  | below => exact List.mem_cons_self ..
  | nowhere => exact List.mem_cons_self ..

/-! ### What stages do to unmarked insertions -/

variable (r : Request) (entries : List Entry)

/-- What a stage makes of a list without marks in what is inserted has none either, unless the stage
gives up. -/
def Unmarking (entries : List Entry) (t : Traced (Except StageError Outcome)) : Prop :=
  ∀ o, t.value = .ok o → ¬ Entry.ShowsMark entries → ¬ Entry.ShowsMark (o.entriesOr entries)

namespace Unmarking

variable {entries : List Entry}

theorem skip : Unmarking entries StageRun.skip := by
  intro o ho
  cases ho
  exact id

theorem bind {α : Type} {x : Traced α} {f : α → Traced (Except StageError Outcome)}
    (h : Unmarking entries (f x.value)) : Unmarking entries (x >>= f) := h

theorem replace {edit : Entry → Traced (Option (List Entry))}
    (h : ∀ e new, ¬ HasMark e.insertion → (edit e).value = some new →
      ∀ e' ∈ new, ¬ HasMark e'.insertion) :
    Unmarking entries (StageRun.replace edit entries) := by
  rintro o ho hentries ⟨e', he', hmark⟩
  rw [StageRun.entriesOr_replace edit entries o ho] at he'
  obtain ⟨e, he, he'⟩ := List.mem_flatMap.mp he'
  have hunmarked : ¬ HasMark e.insertion := fun hm => hentries ⟨e, he, hm⟩
  cases hedit : (edit e).value with
  | none =>
    rw [hedit, Option.getD_none, List.mem_singleton] at he'
    exact hunmarked (he' ▸ hmark)
  | some new =>
    rw [hedit] at he'
    exact h e new hunmarked hedit e' he' hmark

theorem update {edit : Entry → Traced (Option Entry)}
    (h : ∀ e e', ¬ HasMark e.insertion → (edit e).value = some e' → ¬ HasMark e'.insertion) :
    Unmarking entries (StageRun.update edit entries) := by
  refine replace fun e new he hnew e' he' => ?_
  rw [Traced.value_bind, Traced.value_pure, Option.map_eq_some_iff] at hnew
  obtain ⟨edited, hedit, rfl⟩ := hnew
  rw [List.mem_singleton.mp he']
  exact h e edited he hedit

end Unmarking

variable {r : Request} (h : r.Unmarked) {entries : List Entry}

theorem exists_symbol_of_entryType (e : Entry) (t : Ty) (ht : (r.entryType e).value = some t) :
    ∃ id, r.checker.typeOfSymbol id = some t := by
  unfold Request.entryType at ht
  cases hsymbol : e.symbol with
  | none =>
    rw [hsymbol] at ht
    cases ht
  | some id =>
    rw [hsymbol] at ht
    exact ⟨id, ht⟩

theorem mem_signatures_of_onlySignature (construct : Bool) (t : Ty) (s : Signature)
    (hs : onlySignature? construct t = some s) :
    s ∈ t.callSignatures ∨ s ∈ t.constructSignatures := by
  unfold onlySignature? at hs
  split at hs
  · rename_i only honly
    cases hs
    cases construct with
    | false =>
      have hcalls : t.callSignatures = [s] := honly
      exact Or.inl (hcalls ▸ List.mem_singleton.mpr rfl)
    | true =>
      have hconstructs : t.constructSignatures = [s] := honly
      exact Or.inr (hconstructs ▸ List.mem_singleton.mpr rfl)
  · cases hs

include h

theorem unmarked_receiverName (receiver : Nat) (name : String)
    (hname : receiverName? r receiver = some name) : ¬ HasMark name := by
  unfold receiverName? at hname
  split at hname
  · cases hname
    exact r.tree.unmarked_text _ h.document
  · obtain ⟨id, _, rfl⟩ := Option.map_eq_some_iff.mp hname
    exact r.tree.unmarked_text _ h.document
  · cases hname

theorem unmarking_arrayCallbacks : Unmarking entries (arrayCallbacks r entries) := by
  unfold arrayCallbacks
  split
  · exact .skip
  · split
    · exact .skip
    · rename_i receiver _
      have hitem : ¬ HasMark (((receiverName? r receiver).bind singular?).getD "item") := by
        cases hbound : (receiverName? r receiver).bind singular? with
        | none =>
          have hplain : ¬ HasMark "item" := by decide
          exact hplain
        | some item =>
          obtain ⟨name, hname, hsingular⟩ := Option.bind_eq_some_iff.mp hbound
          exact unmarked_singular name item (unmarked_receiverName h receiver name hname) hsingular
      refine .bind ?_
      split
      · refine .update fun e e' he he' => ?_
        rw [Traced.value_pure] at he'
        split at he'
        · cases he'
        · cases he'
          have hopen : Solid "((" := by decide
          have hclose : ¬ HasMark ") => $2)" := by decide
          have hhead := hopen.after (Snippet.unmarked_escape he)
          exact unmarked_append (hhead.append (Snippet.plain_placeholder 1 hitem)) hclose
      · exact .skip

theorem unmarking_calls (hdeclares : r.DeclaresPlainly) : Unmarking entries (calls r entries) := by
  unfold calls
  split
  · exact .skip
  · refine .update fun e e' he he' => ?_
    split at he'
    · cases he'
    · rw [Traced.value_bind, Traced.value_pure, Option.map_eq_some_iff] at he'
      obtain ⟨s, hs, rfl⟩ := he'
      obtain ⟨t, ht, honly⟩ := Option.bind_eq_some_iff.mp hs
      obtain ⟨id, hid⟩ := exists_symbol_of_entryType e t ht
      refine Snippet.unmarked_call he s _ fun p hp => ?_
      obtain ⟨hname, hty⟩ := t.mem_texts_of_signature s
        (mem_signatures_of_onlySignature _ t s honly) p hp
      have hunmarked := h.symbolTypes id t hid
      cases hshown : r.settings.methodSnippets.insertText with
      | name => exact hunmarked _ hname
      | declaration =>
        have hplain (text : String) (htext : text ∈ t.texts) : Plain text :=
          ⟨hunmarked text htext, hdeclares hshown id t hid text htext⟩
        exact (p.plain_display (hplain _ hname) fun text htext => hplain text (hty htext)).unmarked

theorem unmarking_objectLiterals : Unmarking entries (objectLiterals r entries) := by
  unfold objectLiterals
  split
  · exact .skip
  · refine .replace fun e new he hnew e' he' => ?_
    split at hnew
    · rw [Traced.value_bind, Traced.value_pure, Option.map_eq_some_iff] at hnew
      obtain ⟨stub, hstub, rfl⟩ := hnew
      obtain ⟨t, ht, hstub⟩ := Option.bind_eq_some_iff.mp hstub
      obtain ⟨id, hid⟩ := exists_symbol_of_entryType e t ht
      have htexts (text : String) (htext : text ∈ (stubType t).texts) : ¬ HasMark text :=
        h.symbolTypes id t hid text (texts_stubType t htext)
      rcases mem_arrange _ e _ e' he' with rfl | rfl
      · exact he
      · exact unmarked_stub _ _ _ _ stub he htexts hstub
    · cases hnew

/-! ### Stages behind the attribute rules -/

omit h

/-- A stage that neither brings marks into what is inserted nor takes any away, unless it gives up. -/
def KeepsMarks (entries : List Entry) (t : Traced (Except StageError Outcome)) : Prop :=
  ∀ o, t.value = .ok o → (Entry.ShowsMark (o.entriesOr entries) ↔ Entry.ShowsMark entries)

theorem KeepsMarks.skip : KeepsMarks entries StageRun.skip := by
  intro o ho
  cases ho
  exact Iff.rfl

theorem showsMark_map_iff (f : Entry → Entry)
    (hf : ∀ e, HasMark (f e).insertion ↔ HasMark e.insertion) :
    Entry.ShowsMark (entries.map f) ↔ Entry.ShowsMark entries := by
  constructor
  · rintro ⟨e', he', hmark⟩
    obtain ⟨e, he, rfl⟩ := List.mem_map.mp he'
    exact ⟨e, he, (hf e).mp hmark⟩
  · rintro ⟨e, he, hmark⟩
    exact ⟨f e, List.mem_map.mpr ⟨e, he, rfl⟩, (hf e).mpr hmark⟩

theorem keepsMarks_spaceKeywords : KeepsMarks entries (spaceKeywords r entries) := by
  unfold spaceKeywords
  split
  · exact .skip
  · intro o ho
    rw [StageRun.entriesOr_update _ entries o ho]
    refine showsMark_map_iff _ fun e => ?_
    rw [Traced.value_pure]
    split
    · rename_i hkeyword
      rw [Bool.and_eq_true, Bool.and_eq_true, List.contains_iff_mem, Option.isNone_iff_eq_none]
        at hkeyword
      have hspaced : ∀ keyword ∈ spacedKeywords,
          ¬ HasMark (keyword ++ " ") ∧ ¬ HasMark keyword := by decide
      obtain ⟨hnew, hold⟩ := hspaced e.name hkeyword.2
      have hinsertion : e.insertion = e.name := by
        rw [Entry.insertion, hkeyword.1.2]
        rfl
      exact iff_of_false hnew (hinsertion ▸ hold)
    · exact Iff.rfl

include h

theorem hasMark_qualify (e : Entry) (q : Entry × Option Deferred) (hq : qualify r e = some q) :
    HasMark q.1.insertion ↔ HasMark e.insertion := by
  unfold qualify at hq
  obtain ⟨source, _, hq⟩ := Option.bind_eq_some_iff.mp hq
  obtain ⟨target, htarget, hq⟩ := Option.bind_eq_some_iff.mp hq
  cases hq
  obtain ⟨front, back, hsettings, _⟩ := List.lookup_eq_some_iff.mp htarget
  have hname : ¬ HasMark target.name :=
    h.namespaces (source, target) (hsettings ▸ List.mem_append_right _ (List.mem_cons_self ..))
  have hwritten : ¬ HasMark (if e.isSnippet then Snippet.escape target.name else target.name) := by
    split
    · exact Snippet.unmarked_escape hname
    · exact hname
  have hdot : Solid "." := by decide
  have hhead := hdot.after hwritten
  refine ⟨fun hmark => ?_, fun hmark => ?_⟩
  · by_contra hnot
    exact unmarked_append hhead hnot hmark
  · exact (hasMark_append_iff _ _).mpr (Or.inr (Or.inl hmark))

theorem keepsMarks_namespaceImports : KeepsMarks entries (namespaceImports r entries) := by
  intro o ho
  rw [(namespaceImports_cases r entries o ho).1]
  refine showsMark_map_iff _ fun e => ?_
  unfold qualified
  cases hq : qualify r e with
  | none => exact Iff.rfl
  | some q => exact hasMark_qualify h e q hq

theorem keepsMarks_destructuring : KeepsMarks entries (destructuring r entries) := by
  intro o ho
  rcases destructuring_cases r entries o ho with rfl | ⟨e, kept, hsuggests, rfl⟩
  · exact Iff.rfl
  · obtain ⟨name, initializer, t, _, htype, rfl⟩ := hsuggests
    have hnames : Plain (Snippet.placeholders (t.properties.map (·.name))) := by
      refine Snippet.plain_placeholders _ fun text htext => ?_
      obtain ⟨p, hp, rfl⟩ := List.mem_map.mp htext
      exact h.nodeTypes initializer t htype p.name (t.name_mem_texts p hp)
    have hopen : Plain "\x7b " := by decide
    have hclose : ¬ HasMark " \x7d" := by decide
    have hnew : ¬ HasMark (destructuringEntry (t.properties.map (·.name))).insertion :=
      unmarked_append (hopen.append hnames) hclose
    constructor
    · rintro ⟨e, he, hmark⟩
      rcases List.mem_cons.mp he with rfl | he
      · exact absurd hmark hnew
      · exact ⟨e, he, hmark⟩
    · rintro ⟨e, he, hmark⟩
      exact ⟨e, List.mem_cons_of_mem _ he, hmark⟩

omit h in
theorem keepsMarks_normalizeOrder : KeepsMarks entries (normalizeOrder r entries) := by
  intro o ho
  cases ho
  unfold Outcome.entriesIf
  split
  · exact exists_congr fun e => and_congr_left' List.mem_mergeSort
  · exact Iff.rfl

/-! ### The attribute rules -/

omit h

variable (r)

def attributeRule? (attr : String) : Option ScopedRule := do
  let tag ← attributeListTag? r.tree r.ancestors
  let name ← r.tree.firstChild? tag
  let rules ← (scopedRules r.settings.attributeRules).toOption
  rules.find? (·.covers (r.tree.text name r.document.text) attr)

def attributePatch? (attr : String) : Option AttributePatch :=
  (attributeRule? r attr).bind fun s =>
    match s.rule with
    | .patched patch => some patch
    | .shown _ => none

theorem ScopedRule.rule_parse (key : String) (rule : AttributeRule) (s : ScopedRule)
    (h : parse key rule = .ok s) : s.rule = rule := by
  obtain ⟨tag, _, h⟩ := bind_eq_ok_iff.mp h
  obtain ⟨attr, _, h⟩ := bind_eq_ok_iff.mp h
  cases h
  rfl

theorem rule_mem_of_mapM (rules : List (String × AttributeRule)) (read : List ScopedRule)
    (h : (rules.mapM fun rule => ScopedRule.parse rule.1 rule.2) = .ok read) (s : ScopedRule)
    (hs : s ∈ read) : ∃ key, (key, s.rule) ∈ rules := by
  induction rules generalizing read with
  | nil =>
    cases h
    cases hs
  | cons rule rules ih =>
    rw [List.mapM_cons] at h
    obtain ⟨first, hfirst, h⟩ := bind_eq_ok_iff.mp h
    obtain ⟨rest, hrest, h⟩ := bind_eq_ok_iff.mp h
    cases h
    rcases List.mem_cons.mp hs with rfl | hs
    · refine ⟨rule.1, ?_⟩
      rw [ScopedRule.rule_parse rule.1 rule.2 s hfirst]
      exact List.mem_cons_self ..
    · obtain ⟨key, hkey⟩ := ih rest hrest hs
      exact ⟨key, List.mem_cons_of_mem _ hkey⟩

theorem mem_attributeRules (attr : String) (patch : AttributePatch)
    (h : attributePatch? r attr = some patch) :
    ∃ rule ∈ r.settings.attributeRules, rule.2 = .patched patch := by
  obtain ⟨s, hs, hpatch⟩ := Option.bind_eq_some_iff.mp h
  obtain ⟨tag, _, hs⟩ := Option.bind_eq_some_iff.mp hs
  obtain ⟨name, _, hs⟩ := Option.bind_eq_some_iff.mp hs
  obtain ⟨rules, hrules, hs⟩ := Option.bind_eq_some_iff.mp hs
  have hmem : s ∈ rules := List.mem_of_find?_eq_some hs
  cases hparsed : scopedRules r.settings.attributeRules with
  | error e =>
    rw [hparsed] at hrules
    cases hrules
  | ok parsed =>
    rw [hparsed] at hrules
    cases hrules
    obtain ⟨read, hread, hsorted⟩ := bind_eq_ok_iff.mp hparsed
    cases hsorted
    obtain ⟨key, hkey⟩ := rule_mem_of_mapM _ read hread s (List.mem_mergeSort.mp hmem)
    refine ⟨_, hkey, ?_⟩
    split at hpatch
    · cases hpatch
      assumption
    · cases hpatch

theorem effect_attributes :
    StageRun.effect attributes r entries =
      .replaced (entries.map fun e => (e, (attributeRule? r e.name).bind (·.apply e))) := by
  have hnone : .unchanged = Outcome.replaced (entries.map fun e => (e, none)) := by
    simp [Outcome.replaced, Outcome.entriesIf]
  unfold StageRun.effect attributes attributeRule?
  cases attributeListTag? r.tree r.ancestors with
  | none => exact hnone
  | some tag =>
    dsimp only [Option.bind_eq_bind, Option.bind_some]
    cases r.tree.firstChild? tag with
    | none => exact hnone
    | some name =>
      dsimp only [Option.bind_some]
      cases scopedRules r.settings.attributeRules with
      | error e => exact hnone
      | ok rules =>
        dsimp only [Except.toOption, Option.bind_some]
        rw [StageRun.value_replace]
        rfl

theorem entriesOr_effect_attributes :
    (StageRun.effect attributes r entries).entriesOr entries =
      entries.flatMap fun e => ((attributeRule? r e.name).bind (·.apply e)).getD [e] := by
  rw [effect_attributes]
  exact StageRun.entriesOr_replace (fun e => pure ((attributeRule? r e.name).bind (·.apply e)))
    entries _ (StageRun.value_replace _ entries)

theorem trace_attributes : (attributes r entries).trace = [] := by
  unfold attributes
  split
  · rfl
  · split
    · rfl
    · split
      · rfl
      · rw [StageRun.trace_replace]
        simp

/-- The attribute rules as they are read: none if there is one that cannot be read. -/
def readAttributes (rules : List (String × AttributeRule)) : List ScopedRule :=
  (scopedRules rules).toOption.getD []

theorem readAttributes_nil : readAttributes [] = [] := by
  have hrules : scopedRules [] = .ok [] := congrArg Except.ok List.mergeSort_nil
  rw [readAttributes, hrules]
  rfl

theorem attributeRule?_eq (attr : String) :
    attributeRule? r attr = (do
      let tag ← attributeListTag? r.tree r.ancestors
      let name ← r.tree.firstChild? tag
      (readAttributes r.settings.attributeRules).find?
        (·.covers (r.tree.text name r.document.text) attr)) := by
  unfold attributeRule? readAttributes
  cases (scopedRules r.settings.attributeRules).toOption <;> rfl

theorem attributeRule?_of_no_rules (h : r.settings.attributeRules = []) (attr : String) :
    attributeRule? r attr = none := by
  rw [attributeRule?_eq, h, readAttributes_nil]
  cases attributeListTag? r.tree r.ancestors with
  | none => rfl
  | some tag =>
    dsimp only [Option.bind_eq_bind, Option.bind_some]
    cases r.tree.firstChild? tag <;> rfl

theorem entriesOr_effect_attributes_of_no_rules (h : r.settings.attributeRules = []) :
    (StageRun.effect attributes r entries).entriesOr entries = entries := by
  rw [entriesOr_effect_attributes]
  simp only [attributeRule?_of_no_rules r h]
  exact List.flatMap_singleton' entries

/-- Where nothing is inserted with a mark, the attribute rules bring marks in exactly by what they
write. -/
theorem showsMark_attributes_iff (hentries : ¬ Entry.ShowsMark entries) :
    Entry.ShowsMark ((StageRun.effect attributes r entries).entriesOr entries) ↔
      ∃ e ∈ entries, ∃ patch, attributePatch? r e.name = some patch ∧
        HasMark (Snippet.escape e.name ++ patch.insertText) := by
  rw [entriesOr_effect_attributes]
  constructor
  · rintro ⟨e', he', hmark⟩
    obtain ⟨e, he, he'⟩ := List.mem_flatMap.mp he'
    -- An entry that was there before has no mark, so the entry is what a rule has written.
    have hold (heq : e' = e) : False := hentries ⟨e, he, heq ▸ hmark⟩
    cases hrule : attributeRule? r e.name with
    | none =>
      rw [hrule] at he'
      exact (hold (List.mem_singleton.mp he')).elim
    | some s =>
      rw [hrule, Option.bind_some, ScopedRule.apply] at he'
      cases hs : s.rule with
      | shown visible =>
        rw [hs] at he'
        cases visible with
        | true => exact (hold (List.mem_singleton.mp he')).elim
        | false => cases he'
      | patched patch =>
        rw [hs] at he'
        rcases mem_arrange _ e _ e' he' with heq | rfl
        · exact (hold heq).elim
        · refine ⟨e, he, patch, ?_, hmark⟩
          rw [attributePatch?, hrule, Option.bind_some, hs]
  · rintro ⟨e, he, patch, hpatch, hmark⟩
    obtain ⟨s, hrule, hs⟩ := Option.bind_eq_some_iff.mp hpatch
    refine ⟨e.withSnippet (Snippet.escape e.name ++ patch.insertText), ?_, hmark⟩
    refine List.mem_flatMap.mpr ⟨e, he, ?_⟩
    split at hs
    · rename_i written hwritten
      cases hs
      rw [hrule, Option.bind_some, ScopedRule.apply, hwritten]
      exact edited_mem_arrange _ e _
    · cases hs

/-- What a rule writes has a mark if the name has one, or if the two make one where they meet. -/
theorem unmarked_attribute_iff {r : Request} (h : r.Unmarked) (e : Entry) (patch : AttributePatch)
    (hpatch : attributePatch? r e.name = some patch) :
    ¬ HasMark (Snippet.escape e.name ++ patch.insertText) ↔
      ¬ HasMark e.name ∧
        ¬ (e.name.toList.getLast? = some '🏛' ∧ patch.insertText.toList.head? = some ' ') := by
  obtain ⟨rule, hrule, hwritten⟩ := mem_attributeRules r e.name patch hpatch
  have htext : ¬ HasMark patch.insertText := h.attributes rule hrule patch hwritten
  rw [hasMark_append_iff, Snippet.hasMark_escape_iff, Snippet.getLast?_escape, not_or, not_or]
  exact and_congr_right' (and_iff_right htext)

end Stage

end CodeCompletion
