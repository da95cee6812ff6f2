import CodeCompletion.Proofs.Stage.Insertions
import Mathlib.Data.List.Forall2

/-!
# Entries that differ in their labels

A mark changes the name of an entry and leaves what is inserted. Most stages never look at names:
given two lists whose entries differ in their names alone they ask the same questions and leave two
such lists. The others do so where they find the same under both names.
-/

namespace CodeCompletion

open StageRun

/-! ### Entries without their names -/

namespace Entry

/-- An entry without its name; what is inserted stays. -/
def unlabelled (e : Entry) : Entry := { e with name := "", insertText := some e.insertion }

def Twins (e e' : Entry) : Prop := e.unlabelled = e'.unlabelled

theorem Twins.congr {α : Type} {e e' : Entry} (h : e.Twins e') (f : Entry → α)
    (hf : ∀ e, f e = f e.unlabelled) : f e = f e' := by
  rw [hf e, hf e', h]

theorem Twins.map {e e' : Entry} (h : e.Twins e') (f : Entry → Entry)
    (hf : ∀ e, (f e).unlabelled = (f e.unlabelled).unlabelled) : (f e).Twins (f e') :=
  h.congr (fun e => (f e).unlabelled) hf

/-- What the place of an entry in the answer depends on, with the entry of the engine that it stems
from. -/
def standing (e : Entry) : Option Nat × String := (e.origin, e.sortText)

/-- Entries that stem from the same entry of the engine and have the same place in the order. -/
def Kin (e e' : Entry) : Prop := e.standing = e'.standing

theorem forall₂_twins_iff (entries entries' : List Entry) :
    List.Forall₂ Twins entries entries' ↔ entries.map unlabelled = entries'.map unlabelled := by
  rw [← List.forall₂_eq_eq_eq, List.forall₂_map_left_iff, List.forall₂_map_right_iff]
  exact Iff.rfl

theorem forall₂_kin_iff (entries entries' : List Entry) :
    List.Forall₂ Kin entries entries' ↔ entries.map standing = entries'.map standing := by
  rw [← List.forall₂_eq_eq_eq, List.forall₂_map_left_iff, List.forall₂_map_right_iff]
  exact Iff.rfl

theorem kin_sortByKey {entries entries' : List Entry} (h : List.Forall₂ Kin entries entries') :
    List.Forall₂ Kin (sortByKey entries) (sortByKey entries') := by
  have hsort (es : List Entry) : (sortByKey es).map standing =
      (es.map standing).mergeSort fun a b => decide (a.2 ≤ b.2) :=
    List.map_mergeSort fun _ _ _ _ => rfl
  rw [forall₂_kin_iff] at h ⊢
  rw [hsort, hsort, h]

theorem Twins.kin {e e' : Entry} (h : e.Twins e') : e.Kin e' := h.congr standing fun _ => rfl

end Entry

/-! ### The same stage on two lists -/

namespace StageRun

/-- Two stages ask the same questions and leave entries that are related one by one. -/
structure Alike (R : Entry → Entry → Prop) (entries entries' : List Entry)
    (t t' : Traced (Except StageError Outcome)) : Prop where
  trace : t.trace = t'.trace
  left : List.Forall₂ R (left t entries) (left t' entries')

variable {R S : Entry → Entry → Prop} {entries entries' : List Entry}

theorem Alike.skip (h : List.Forall₂ R entries entries') : Alike R entries entries' skip skip :=
  ⟨rfl, h⟩

theorem Alike.pure_error (h : List.Forall₂ R entries entries') (e : StageError) :
    Alike R entries entries' (pure (.error e)) (pure (.error e)) := ⟨rfl, h⟩

theorem Alike.bind {α : Type} (t : Traced α) (f f' : α → Traced (Except StageError Outcome))
    (h : Alike R entries entries' (f t.value) (f' t.value)) :
    Alike R entries entries' (t >>= f) (t >>= f') :=
  ⟨congrArg (t.trace ++ ·) h.trace, h.left⟩

theorem Alike.pure_entriesIf (changed : Bool) {new new' : List Entry}
    (h : List.Forall₂ R entries entries') (hnew : List.Forall₂ R new new') :
    Alike R entries entries' (pure (.ok (.entriesIf changed new)))
      (pure (.ok (.entriesIf changed new'))) := by
  cases changed with
  | false => exact ⟨rfl, h⟩
  | true => exact ⟨rfl, hnew⟩

theorem forall₂_arrange (place : UneditedPlace) {e e' edited edited' : Entry} (h : R e e')
    (hedited : R edited edited') :
    List.Forall₂ R (place.arrange e edited) (place.arrange e' edited') := by
  cases place with
  | above => exact .cons h (.cons hedited .nil)
  | below => exact .cons hedited (.cons h .nil)
  | nowhere => exact .cons hedited .nil

theorem map_eq_of_forall₂ {α : Type} (f : Entry → α) (h : List.Forall₂ S entries entries')
    (hf : ∀ e e', S e e' → f e = f e') : entries.map f = entries'.map f := by
  rw [← List.forall₂_eq_eq_eq, List.forall₂_map_left_iff, List.forall₂_map_right_iff]
  exact h.imp hf

theorem trace_retain (test : Entry → Traced Bool) (entries : List Entry) :
    (retain test entries).trace = (entries.map fun e => (test e).trace).flatten := by
  rw [retain, Traced.trace_bind, Traced.filter, Traced.trace_bind, Traced.each]
  dsimp only [Traced.trace_pure, Traced.trace_bind]
  rw [List.append_nil, List.append_nil, List.flatMap_map, List.flatMap_def]
  simp

theorem left_retain (test : Entry → Traced Bool) (entries : List Entry) :
    left (retain test entries) entries = entries.filter fun e => (test e).value := by
  rw [left, retain, Traced.value_bind, Traced.value_filter]
  dsimp only [Traced.value_pure]
  rw [Outcome.kept, Outcome.entriesIf]
  split
  · rfl
  · rename_i hsame
    have hlength : (entries.filter fun e => (test e).value).length = entries.length := by
      simpa using hsame
    exact (List.filter_sublist.eq_of_length hlength).symm

theorem Alike.retain (test : Entry → Traced Bool) (h : List.Forall₂ S entries entries')
    (hR : ∀ e e', S e e' → R e e') (htest : ∀ e e', S e e' → test e = test e') :
    Alike R entries entries' (retain test entries) (retain test entries') := by
  constructor
  · rw [trace_retain, trace_retain,
      map_eq_of_forall₂ (fun e => (test e).trace) h fun e e' hS => congrArg _ (htest e e' hS)]
  · rw [left_retain, left_retain]
    refine (List.rel_filter ?_ h).imp hR
    intro e e' hS
    show (test e).value = true ↔ (test e').value = true
    rw [htest e e' hS]

theorem Alike.replace (edit : Entry → Traced (Option (List Entry)))
    (h : List.Forall₂ S entries entries')
    (htrace : ∀ e e', S e e' → (edit e).trace = (edit e').trace)
    (hnew : ∀ e e', S e e' →
      List.Forall₂ R ((edit e).value.getD [e]) ((edit e').value.getD [e'])) :
    Alike R entries entries' (replace edit entries) (replace edit entries') := by
  constructor
  · rw [trace_replace, trace_replace, map_eq_of_forall₂ (fun e => (edit e).trace) h htrace]
  · rw [left_replace, left_replace]
    exact List.rel_flatMap h fun e e' hS => hnew e e' hS

theorem Alike.update (edit : Entry → Traced (Option Entry)) (h : List.Forall₂ S entries entries')
    (htrace : ∀ e e', S e e' → (edit e).trace = (edit e').trace)
    (hnew : ∀ e e', S e e' → R ((edit e).value.getD e) ((edit e').value.getD e')) :
    Alike R entries entries' (update edit entries) (update edit entries') := by
  refine Alike.replace _ h (fun e e' hS => congrArg (· ++ []) (htrace e e' hS)) fun e e' hS => ?_
  have hone (e : Entry) : ((edit e).value.map ([·])).getD [e] = [(edit e).value.getD e] := by
    cases (edit e).value <;> rfl
  rw [Traced.value_bind, Traced.value_bind, Traced.value_pure, Traced.value_pure, hone, hone]
  exact .cons (hnew e e' hS) .nil

theorem Alike.update_twins (edit : Entry → Traced (Option Entry))
    (h : List.Forall₂ Entry.Twins entries entries')
    (hedit : ∀ e : Entry, (edit e).trace = (edit e.unlabelled).trace ∧
      ((edit e).value.getD e).unlabelled =
        ((edit e.unlabelled).value.getD e.unlabelled).unlabelled) :
    Alike Entry.Twins entries entries' (StageRun.update edit entries)
      (StageRun.update edit entries') :=
  .update edit h (fun _ _ htwins => htwins.congr (fun e => (edit e).trace) fun e => (hedit e).1)
    fun _ _ htwins => htwins.map (fun e => (edit e).value.getD e) fun e => (hedit e).2

theorem Alike.each {α : Type} (f : Entry → Traced α)
    (next : List α → Traced (Except StageError Outcome))
    (h : List.Forall₂ S entries entries')
    (htrace : ∀ e e', S e e' → (f e).trace = (f e').trace)
    (hnext : Alike R entries entries' (next (entries.map fun e => (f e).value))
      (next (entries'.map fun e => (f e).value))) :
    Alike R entries entries' (Traced.each f entries >>= next)
      (Traced.each f entries' >>= next) := by
  have hasked : (Traced.each f entries).trace = (Traced.each f entries').trace := by
    rw [Traced.each, Traced.each, List.flatMap_map, List.flatMap_map, List.flatMap_def,
      List.flatMap_def, map_eq_of_forall₂ (fun e => (f e).trace) h htrace]
  have hvalue (es : List Entry) : (Traced.each f es >>= next).value =
      (next (es.map fun e => (f e).value)).value := by
    rw [Traced.value_bind, Traced.value_each]
  constructor
  · rw [Traced.trace_bind, Traced.trace_bind, Traced.value_each, Traced.value_each, hasked,
      hnext.trace]
  · rw [StageRun.left, StageRun.left, hvalue, hvalue]
    exact hnext.left

end StageRun

namespace Stage

variable {r : Request} {entries entries' : List Entry}

/-! ### Stages that do not look at names -/

theorem standsFor_unlabelled (e : Entry) : standsFor e = standsFor e.unlabelled := by
  funext value
  cases value <;> rfl

section Blind

variable (h : List.Forall₂ Entry.Twins entries entries')

include h

theorem alike_excludeCovered :
    Alike Entry.Twins entries entries' (excludeCovered r entries) (excludeCovered r entries') := by
  unfold excludeCovered
  split
  · exact .skip h
  · dsimp only
    split
    · exact .skip h
    · split
      · exact .pure_error h _
      · refine .bind _ _ _ ?_
        split
        · exact .skip h
        · split
          · exact .skip h
          · refine .bind _ _ _ ?_
            split
            · exact .skip h
            · refine .retain _ h (fun _ _ => id) fun e e' htwins => ?_
              rw [htwins.congr standsFor standsFor_unlabelled]

theorem alike_functionKind :
    Alike Entry.Twins entries entries' (functionKind r entries) (functionKind r entries') := by
  refine .update_twins _ h fun e => ?_
  have hkind : e.unlabelled.kind = e.kind := rfl
  have htype : r.entryType e.unlabelled = r.entryType e := rfl
  rw [hkind, htype]
  cases isConvertible e.kind with
  | false => exact ⟨rfl, rfl⟩
  | true =>
    simp only [Bool.not_true, Bool.false_eq_true, if_false, Traced.value_bind, Traced.trace_bind]
    cases (r.entryType e).value.any (·.isCallable) <;> exact ⟨rfl, rfl⟩

theorem alike_refined (rank : Entry → UInt16) (hrank : ∀ e, rank e = rank e.unlabelled) :
    List.Forall₂ Entry.Twins (entries.map fun e => e.mapKey (SortKey.refine · (rank e)))
      (entries'.map fun e => e.mapKey (SortKey.refine · (rank e))) := by
  refine List.rel_map (fun e e' htwins => ?_) h
  refine Entry.Twins.map htwins (fun e => e.mapKey (SortKey.refine · (rank e))) fun e => ?_
  rw [hrank e]
  rfl

theorem alike_boostByType :
    Alike Entry.Twins entries entries' (boostByType r entries) (boostByType r entries') := by
  unfold boostByType
  refine .bind _ _ _ ?_
  split
  · exact .skip h
  · exact .skip h
  · exact .skip h
  · rename_i t _ _ _
    have hfits (e : Entry) : fits r t e = fits r t e.unlabelled := rfl
    refine .each _ _ h ?_ ?_
    · intro e e' htwins
      exact congrArg (·.trace ++ []) (htwins.congr (fits r t) hfits)
    · have hverdicts := map_eq_of_forall₂ (fun e => (fits r t e).value) h fun e e' htwins =>
        congrArg (·.value) (htwins.congr (fits r t) hfits)
      have hany (es : List Entry) : (es.map fun e => (e, (fits r t e).value)).any (·.2) =
          (es.map fun e => (fits r t e).value).any id := by
        rw [List.any_map, List.any_map]
        rfl
      have hrefined := alike_refined h (fun e => if (fits r t e).value then 0 else 1) fun _ => rfl
      simp only [Traced.value_bind, Traced.value_pure, hany, hverdicts, List.map_map]
      exact .pure_entriesIf _ h hrefined

theorem alike_boostByLocality :
    Alike Entry.Twins entries entries' (boostByLocality r entries) (boostByLocality r entries') := by
  unfold boostByLocality
  have hlocality (e : Entry) : locality r e = locality r e.unlabelled := rfl
  refine .each _ _ h ?_ ?_
  · intro e e' htwins
    exact congrArg (·.trace ++ []) (htwins.congr (locality r) hlocality)
  · have hplaces := map_eq_of_forall₂ (fun e => (locality r e).value) h fun e e' htwins =>
      congrArg (·.value) (htwins.congr (locality r) hlocality)
    have hall (es : List Entry) :
        (es.map fun e => (e, (locality r e).value)).all (·.2 == .project) =
          (es.map fun e => (locality r e).value).all (· == .project) := by
      rw [List.all_map, List.all_map]
      rfl
    have hrefined := alike_refined h (localityRank r) fun _ => rfl
    simp only [Traced.value_bind, Traced.value_pure, hall, hplaces, List.map_map]
    split
    · exact .skip h
    · exact ⟨rfl, hrefined⟩

theorem alike_sortProperties :
    Alike Entry.Twins entries entries' (sortProperties r entries) (sortProperties r entries') := by
  unfold sortProperties
  split
  · exact .skip h
  · refine .bind _ _ _ ?_
    split
    · exact .skip h
    · split
      · exact .skip h
      · exact ⟨rfl, alike_refined h _ fun _ => rfl⟩

theorem alike_showImportModule :
    Alike Entry.Twins entries entries' (showImportModule r entries)
      (showImportModule r entries') := by
  refine .update_twins _ h fun e => ⟨rfl, ?_⟩
  have hmodule : e.unlabelled.importModule? = e.importModule? := rfl
  rw [hmodule]
  cases e.importModule? with
  | none => rfl
  | some m => cases r.settings.displayImportedInfo <;> rfl

theorem alike_arrayCallbacks :
    Alike Entry.Twins entries entries' (arrayCallbacks r entries) (arrayCallbacks r entries') := by
  unfold arrayCallbacks
  split
  · exact .skip h
  · split
    · exact .skip h
    · refine .bind _ _ _ ?_
      split
      · refine .update_twins _ h fun e => ⟨rfl, ?_⟩
        have hread : (e.unlabelled.isSnippet || !arrayCallbackMethods.contains e.unlabelled.insertion) =
            (e.isSnippet || !arrayCallbackMethods.contains e.insertion) := rfl
        rw [hread]
        split <;> rfl
      · exact .skip h

theorem alike_calls :
    Alike Entry.Twins entries entries' (calls r entries) (calls r entries') := by
  unfold calls
  split
  · exact .skip h
  · refine .update_twins _ h fun e => ?_
    have hread : (e.unlabelled.isSnippet || !e.unlabelled.kind.mayBeCallable) =
        (e.isSnippet || !e.kind.mayBeCallable) := rfl
    have htype : r.entryType e.unlabelled = r.entryType e := rfl
    rw [hread, htype]
    split
    · exact ⟨rfl, rfl⟩
    · refine ⟨rfl, ?_⟩
      rw [Traced.value_bind, Traced.value_bind]
      cases (r.entryType e).value.bind (onlySignature? r.afterNew) <;> rfl

theorem alike_objectLiterals :
    Alike Entry.Twins entries entries' (objectLiterals r entries) (objectLiterals r entries') := by
  unfold objectLiterals
  split
  · exact .skip h
  · have hread (e e' : Entry) (htwins : e.Twins e') :=
      htwins.congr (fun e => ((e.kind == .property || e.kind == .method) && !e.isSnippet,
        r.entryType e, e.insertion)) fun _ => rfl
    simp only [Prod.mk.injEq] at hread
    refine .replace _ h (fun e e' htwins => ?_) fun e e' htwins => ?_
    · obtain ⟨hkind, htype, _⟩ := hread e e' htwins
      rw [hkind, htype]
      split <;> rfl
    · obtain ⟨hkind, htype, hinsertion⟩ := hread e e' htwins
      rw [hkind, htype, hinsertion]
      split
      · simp only [Traced.value_bind, Traced.value_pure]
        cases (r.entryType e').value.bind fun t => stub? e'.insertion (stubType t)
            r.settings.objectLiteralCompletions.moreVariants r.formatting.quotes.mark with
        | none => exact .cons htwins .nil
        | some stub =>
          refine forall₂_arrange _ htwins ?_
          exact htwins.map (fun e => (e.withSnippet stub.insertText).withDetail stub.detail)
            fun _ => rfl
      · exact .cons htwins .nil

/-- Marks in front of names change nothing else, even if only one of the lists gets them. -/
theorem alike_highlightOwnMembers :
    Alike Entry.Twins entries entries' (highlightOwnMembers r entries)
      (highlightOwnMembers r entries') := by
  have htrace (es : List Entry) : (highlightOwnMembers r es).trace = [] := by
    unfold highlightOwnMembers
    split <;> rfl
  -- Whether the members of functions are recognized may differ, but without names it does not show.
  have hleft (es : List Entry) :
      (left (highlightOwnMembers r es) es).map Entry.unlabelled = es.map Entry.unlabelled := by
    unfold highlightOwnMembers
    split
    · exact List.map_map
    · rfl
  refine ⟨(htrace entries).trans (htrace entries').symm, ?_⟩
  rw [Entry.forall₂_twins_iff, hleft, hleft]
  exact (Entry.forall₂_twins_iff entries entries').mp h

end Blind

/-! ### Stages that select entries by their names -/

theorem contains_congr {members : List String} {name name' : String}
    (h : ∀ member ∈ members, name = member ↔ name' = member) :
    members.contains name = members.contains name' := by
  rw [Bool.eq_iff_iff, List.contains_iff_mem, List.contains_iff_mem]
  constructor
  · intro hmem
    rw [(h name hmem).mp rfl]
    exact hmem
  · intro hmem
    rw [(h name' hmem).mpr rfl]
    exact hmem

theorem listsName_congr (name : String)
    (h : List.Forall₂ (fun e e' : Entry => e.name = name ↔ e'.name = name) entries entries') :
    listsName entries name = listsName entries' name := by
  have hnames := map_eq_of_forall₂ (·.name == name) h fun e e' hsame => by
    rw [Bool.eq_iff_iff, beq_iff_eq, beq_iff_eq]
    exact hsame
  have hany (es : List Entry) : listsName es name = (es.map (·.name == name)).any id := by
    rw [List.any_map]
    rfl
  rw [hany, hany, hnames]

theorem listsFunctionMembers_congr
    (h : (Traced.ofOption r.typeOfNode r.memberReceiver?).value.any (·.isCallable) = true ∨
      ∀ name ∈ ["apply", "bind", "call"], listsName entries name = listsName entries' name) :
    listsFunctionMembers r entries = listsFunctionMembers r entries' := by
  let receiver := Traced.ofOption r.typeOfNode r.memberReceiver?
  have hverdict :
      (receiver.value.any (·.isCallable) || ["apply", "bind", "call"].all (listsName entries)) =
        (receiver.value.any (·.isCallable) ||
          ["apply", "bind", "call"].all (listsName entries')) := by
    rcases h with hcallable | hnames
    · rw [hcallable, Bool.true_or, Bool.true_or]
    · congr 1
      rw [Bool.eq_iff_iff, List.all_eq_true, List.all_eq_true]
      exact forall₂_congr fun name hname => by rw [hnames name hname]
  exact congrArg (Traced.mk · (receiver.trace ++ [])) hverdict

theorem alike_removeUselessFunctionProps
    (h : List.Forall₂ (fun e e' => e.Twins e' ∧ (r.isMember = true →
      uselessFunctionMembers.contains e.name = uselessFunctionMembers.contains e'.name))
        entries entries')
    (hlists : r.isMember = true → listsFunctionMembers r entries = listsFunctionMembers r entries') :
    Alike Entry.Twins entries entries' (removeUselessFunctionProps r entries)
      (removeUselessFunctionProps r entries') := by
  have htwins := h.imp fun _ _ => And.left
  unfold removeUselessFunctionProps
  split
  · exact .skip htwins
  · rename_i hother
    have hmember : r.isMember = true := by
      rw [Bool.not_eq_true', Bool.not_eq_false] at hother
      exact hother
    rw [hlists hmember]
    refine .bind _ _ _ ?_
    split
    · refine .retain _ h (fun _ _ => And.left) fun e e' hnames => ?_
      rw [hnames.2 hmember]
    · exact .skip htwins

theorem alike_boostKeywords
    (h : List.Forall₂ (fun e e' => e.Twins e' ∧ (r.isMember = false → e.kind = .keyword →
      (expectedKeywords r).contains e.name = (expectedKeywords r).contains e'.name))
        entries entries') :
    Alike Entry.Twins entries entries' (boostKeywords r entries) (boostKeywords r entries') := by
  unfold boostKeywords
  dsimp only
  split
  · exact .skip (h.imp fun _ _ => And.left)
  · rename_i hboosts
    have hmember : r.isMember = false := by
      rw [Bool.or_eq_true, not_or, Bool.not_eq_true] at hboosts
      exact hboosts.1
    refine .update _ h (fun _ _ _ => rfl) fun e e' ⟨htwins, hname⟩ => ?_
    have hkind := htwins.congr (fun e => e.kind == .keyword) fun _ => rfl
    have hkey := htwins.congr (·.sortText) fun _ => rfl
    have hexpected : (e.kind == .keyword && (expectedKeywords r).contains e.name) =
        (e'.kind == .keyword && (expectedKeywords r).contains e'.name) := by
      rw [← hkind]
      cases hkeyword : e.kind == .keyword with
      | false => rfl
      | true => exact hname hmember (eq_of_beq hkeyword)
    rw [Traced.value_pure, Traced.value_pure, hexpected, hkey]
    split
    · exact htwins.map (·.mapKey SortKey.boost) fun _ => rfl
    · exact htwins

def attributeCopies (r : Request) (attr : String) : Nat :=
  match attributeRule? r attr with
  | none => 1
  | some s =>
    match s.rule with
    | .shown true => 1
    | .shown false => 0
    | .patched patch =>
      match patch.unedited with
      | .nowhere => 1
      | .above | .below => 2

theorem standing_attributes (e : Entry) :
    (((attributeRule? r e.name).bind (·.apply e)).getD [e]).map Entry.standing =
      List.replicate (attributeCopies r e.name) e.standing := by
  unfold attributeCopies
  cases attributeRule? r e.name with
  | none => rfl
  | some s =>
    rw [Option.bind_some, ScopedRule.apply]
    dsimp only
    cases s.rule with
    | shown visible => cases visible <;> rfl
    | patched patch => cases hplace : patch.unedited <;> simp only [hplace] <;> rfl

theorem left_attributes : left (attributes r entries) entries =
    entries.flatMap fun e => ((attributeRule? r e.name).bind (·.apply e)).getD [e] := by
  rw [← entriesOr_effect_attributes, left, StageRun.effect]
  cases (attributes r entries).value <;> rfl

theorem alike_attributes
    (h : List.Forall₂ (fun e e' => e.Twins e' ∧
      attributeCopies r e.name = attributeCopies r e'.name) entries entries') :
    Alike Entry.Kin entries entries' (attributes r entries) (attributes r entries') := by
  refine ⟨(trace_attributes r).trans (trace_attributes r).symm, ?_⟩
  rw [left_attributes, left_attributes]
  refine List.rel_flatMap h fun e e' ⟨htwins, hcopies⟩ => ?_
  rw [Entry.forall₂_kin_iff, standing_attributes, standing_attributes, hcopies, htwins.kin]

theorem alike_destructuring
    (h : List.Forall₂ (fun e e' => e.Kin e' ∧
      ∀ s, Suggests r s → (e.name = s.name ↔ e'.name = s.name)) entries entries') :
    Alike Entry.Kin entries entries' (destructuring r entries) (destructuring r entries') := by
  have hkin := h.imp fun _ _ => And.left
  unfold destructuring
  split
  · exact .skip hkin
  · rename_i name initializer hvariable
    refine .bind _ _ _ ?_
    split
    · exact .skip hkin
    · rename_i t htype
      split
      · exact .skip hkin
      · have hsuggests : Suggests r (destructuringEntry (t.properties.map (·.name))) :=
          ⟨name, initializer, t, hvariable, htype, rfl⟩
        dsimp only
        generalize destructuringEntry (t.properties.map (·.name)) = suggestion at hsuggests ⊢
        have hlisted : listsName entries suggestion.name = listsName entries' suggestion.name :=
          listsName_congr _ (h.imp fun e e' hsame => hsame.2 suggestion hsuggests)
        unfold listsName at hlisted
        rw [hlisted]
        split
        · exact .skip hkin
        · exact ⟨rfl, .cons rfl hkin⟩

/-! ### Stages that keep entries in their places -/

section Kin

variable (h : List.Forall₂ Entry.Kin entries entries')

include h

theorem alike_spaceKeywords :
    Alike Entry.Kin entries entries' (spaceKeywords r entries) (spaceKeywords r entries') := by
  unfold spaceKeywords
  split
  · exact .skip h
  · refine .update _ h (fun _ _ _ => rfl) fun e e' hkin => ?_
    have hstanding (e : Entry) : Entry.standing ((Traced.value (pure (
        if e.kind == .keyword && !e.isSnippet && e.insertText.isNone && spacedKeywords.contains e.name
        then some { e with insertText := some (e.name ++ " ") } else none))).getD e) =
          e.standing := by
      rw [Traced.value_pure]
      split <;> rfl
    exact (hstanding e).trans (hkin.trans (hstanding e').symm)

theorem alike_namespaceImports :
    Alike Entry.Kin entries entries' (namespaceImports r entries)
      (namespaceImports r entries') := by
  have hleft (es : List Entry) :
      (left (namespaceImports r es) es).map Entry.standing = es.map Entry.standing := by
    obtain ⟨_, o, ho, hentries, _⟩ := run_namespaceImports r es
    rw [left, ho]
    dsimp only
    rw [hentries, List.map_map]
    refine List.map_congr_left fun e _ => ?_
    have hkeeps := keeps_qualified r e
    exact Prod.ext hkeeps.origin (hkeeps.sortText (by decide))
  have htrace (es : List Entry) := (run_namespaceImports r es).1
  refine ⟨(htrace entries).trans (htrace entries').symm, ?_⟩
  rw [Entry.forall₂_kin_iff, hleft, hleft]
  exact (Entry.forall₂_kin_iff entries entries').mp h

theorem alike_normalizeOrder :
    Alike Entry.Kin entries entries' (normalizeOrder r entries) (normalizeOrder r entries') := by
  have hleft (es : List Entry) : left (normalizeOrder r es) es = Entry.sortByKey es := by
    cases hsorted : Entry.isSortedByKey es with
    | true =>
      rw [Entry.sortByKey_of_sortedByKey _ ((Entry.isSortedByKey_iff _).mp hsorted)]
      unfold normalizeOrder
      rw [hsorted]
      rfl
    | false =>
      unfold normalizeOrder
      rw [hsorted]
      rfl
  refine ⟨rfl, ?_⟩
  rw [hleft, hleft]
  exact Entry.kin_sortByKey h

end Kin

end Stage

end CodeCompletion
