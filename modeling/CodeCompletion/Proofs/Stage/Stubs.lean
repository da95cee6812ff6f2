import CodeCompletion.Proofs.Snippet.Reading
import CodeCompletion.Proofs.Stage.Insertions
import CodeCompletion.Proofs.Types.Leaves
import CodeCompletion.Session
import CodeCompletion.Types.Program

/-!
# Choices in stubs of properties

The stub for a property whose type is a union of string literals offers the literals between
quotation marks. Read back, the choice has exactly these literals. The stage takes a union
without members for one of literals, too; such a union is left of `null | undefined`.
-/

namespace CodeCompletion

namespace Snippet

/-- Whether a snippet offers the options, in this order, between quotation marks. -/
def HoldsQuotedChoice (mark : String) (options : List String) (snippet : String) : Prop :=
  ∃ front back, read snippet =
    some (front ++ spell mark ++ .choice 1 options :: (spell mark ++ back))

variable {mark snippet : String} {options : List String}

theorem choice_not_mem_spell (n : Nat) (options : List String) (text : String) :
    Piece.choice n options ∉ spell text := by
  intro h
  obtain ⟨c, _, hc⟩ := List.mem_map.mp h
  cases hc

theorem not_holdsQuotedChoice {pieces : List Piece} (hread : read snippet = some pieces)
    (hnone : ∀ options, .choice 1 options ∉ pieces) : ¬ HoldsQuotedChoice mark options snippet := by
  rintro ⟨front, back, h⟩
  rw [hread, Option.some_inj] at h
  refine hnone options ?_
  rw [h]
  exact List.mem_append_right _ (List.mem_cons_self ..)

theorem holdsQuotedChoice_iff {before after : String} {shown : List String}
    (hread : read snippet = some (spell before ++ .choice 1 shown :: spell after)) :
    HoldsQuotedChoice mark options snippet ↔
      options = shown ∧ spell mark <:+ spell before ∧ spell mark <+: spell after := by
  constructor
  · rintro ⟨front, back, h⟩
    rw [hread, Option.some_inj, List.append_cons_inj_of_notMem
      (choice_not_mem_spell 1 options before) (choice_not_mem_spell 1 options after)] at h
    obtain ⟨hfront, hchoice, hback⟩ := h
    cases hchoice
    exact ⟨rfl, ⟨front, hfront.symm⟩, ⟨back, hback.symm⟩⟩
  · rintro ⟨rfl, ⟨front, hfront⟩, ⟨back, hback⟩⟩
    exact ⟨front, back, by rw [hread, hfront, hback]⟩

theorem mem_of_mem_intercalate {α : Type} (sep : List α) (items : List (List α)) (a : α)
    (h : a ∈ sep.intercalate items) : a ∈ sep ∨ ∃ item ∈ items, a ∈ item := by
  induction items with
  | nil => cases h
  | cons item items ih =>
    cases items with
    | nil =>
      rw [List.intercalate_singleton] at h
      exact Or.inr ⟨item, List.mem_cons_self .., h⟩
    | cons next items =>
      rw [List.intercalate_cons_cons, List.mem_append, List.mem_append] at h
      rcases h with (hitem | hsep) | hrest
      · exact Or.inr ⟨item, List.mem_cons_self .., hitem⟩
      · exact Or.inl hsep
      · refine (ih hrest).imp_right ?_
        rintro ⟨item, hmem, ha⟩
        exact ⟨item, List.mem_cons_of_mem _ hmem, ha⟩

end Snippet

namespace Stage

open Snippet

/-! ### Reading a stub -/

theorem read_valueStub (name value detail : String) :
    read (valueStub name value detail).insertText =
      (read value).map (spell (name ++ ": ") ++ ·) := by
  have hcolon : Yields .text ": ".toList (spell ": ") .text :=
    Yields.append (.char (by decide) (by decide)) (.char (by decide) (by decide))
  have hfront : Yields .text (escape name ++ ": ").toList (spell (name ++ ": ")) .text := by
    rw [String.toList_append, spell_append]
    exact (yields_escape name).append hcolon
  exact hfront.read_append value

theorem not_offers_of_value (mark name value detail : String) (options : List String)
    (pieces : List Piece) (hread : read value = some pieces)
    (hnone : ∀ options, .choice 1 options ∉ pieces) :
    ¬ HoldsQuotedChoice mark options (valueStub name value detail).insertText := by
  have hstub := read_valueStub name value detail
  rw [hread, Option.map_some] at hstub
  refine not_holdsQuotedChoice hstub fun options hmem => ?_
  rcases List.mem_append.mp hmem with hmem | hmem
  · exact choice_not_mem_spell 1 options _ hmem
  · exact hnone options hmem

theorem yields_methodHead (name : String) (names : List String) :
    Yields .text (escape name ++ "(" ++ placeholders names).toList
      (spell name ++ spell "(" ++
        (spell ", ").intercalate (names.mapIdx fun i text => [.placeholder (i + 1) text]))
      .text := by
  have hopen : Yields .text ['('] (spell "(") .text := .char (by decide) (by decide)
  rw [String.toList_append, String.toList_append]
  exact ((yields_escape name).append hopen).append (yields_placeholders names)

theorem not_offers_of_method (mark name : String) (s : Signature) (options : List String) :
    ¬ HoldsQuotedChoice mark options (methodStub name s).insertText := by
  have hbody : read ") \x7b\n\t$0\n\x7d" =
      some (spell ") \x7b\n\t" ++ .tabStop 0 :: spell "\n\x7d") := by decide
  have hread := (yields_methodHead name ((keptParams .nothing s.params).map (·.name))).read_append
    ") \x7b\n\t$0\n\x7d"
  rw [hbody, Option.map_some] at hread
  refine not_holdsQuotedChoice hread fun options hmem => ?_
  simp only [List.mem_append, List.mem_cons, reduceCtorEq, false_or] at hmem
  rcases hmem with ((hname | hbracket) | hparams) | hhead | htail
  · exact choice_not_mem_spell 1 options _ hname
  · exact choice_not_mem_spell 1 options _ hbracket
  · rcases mem_of_mem_intercalate _ _ _ hparams with hcomma | ⟨piece, hpiece, hchoice⟩
    · exact choice_not_mem_spell 1 options _ hcomma
    · obtain ⟨i, hi, rfl⟩ := List.mem_mapIdx.mp hpiece
      cases List.mem_singleton.mp hchoice
  · exact choice_not_mem_spell 1 options _ hhead
  · exact choice_not_mem_spell 1 options _ htail

theorem yields_mark (quotes : QuoteStyle) :
    Yields .text quotes.mark.toList (spell quotes.mark) .text := by
  cases quotes with
  | double => exact .char (by decide) (by decide)
  | single => exact .char (by decide) (by decide)

theorem spell_mark_ne_nil (quotes : QuoteStyle) : spell quotes.mark ≠ [] := by
  cases quotes <;> decide

/-- No fixed value has a choice between quotation marks: the one of truth values has none behind it.
-/
theorem not_offers_of_fixed_value (quotes : QuoteStyle) (name value detail : String)
    (hvalue : value ∈ fixedValues quotes.mark) (options : List String) :
    ¬ HoldsQuotedChoice quotes.mark options (valueStub name value detail).insertText := by
  have hread := read_valueStub name value detail
  simp only [fixedValues, List.mem_cons, List.not_mem_nil, or_false] at hvalue
  rcases hvalue with rfl | rfl | rfl | rfl | rfl
  · exact not_offers_of_value _ name _ detail options [.char '[', .tabStop 1, .char ']']
      (by decide) (by simp)
  · exact not_offers_of_value _ name _ detail options [.char '\x7b', .tabStop 1, .char '\x7d']
      (by decide) (by simp)
  · cases quotes with
    | double =>
      exact not_offers_of_value _ name _ detail options [.char '"', .tabStop 1, .char '"']
        (by decide) (by simp)
    | single =>
      exact not_offers_of_value _ name _ detail options [.char '\'', .tabStop 1, .char '\'']
        (by decide) (by simp)
  · have hshown : read (valueStub name (choice 1 ["true", "false"]) detail).insertText =
        some (spell (name ++ ": ") ++ .choice 1 ["true", "false"] :: spell "") := by
      rw [hread, (yields_choice 1 ["true", "false"]).read]
      rfl
    rw [holdsQuotedChoice_iff hshown]
    rintro ⟨-, -, hafter⟩
    exact spell_mark_ne_nil quotes (List.prefix_nil.mp hafter)
  · exact not_offers_of_value _ name _ detail options [.tabStop 1] (by decide) (by simp)

theorem offers_of_quoted_choice (quotes : QuoteStyle) (name detail : String)
    (options values : List String) :
    HoldsQuotedChoice quotes.mark options
      (valueStub name (quotes.mark ++ choice 1 values ++ quotes.mark) detail).insertText ↔
      options = offered values := by
  have hvalue : Yields .text (quotes.mark ++ choice 1 values ++ quotes.mark).toList
      (spell quotes.mark ++ [.choice 1 (offered values)] ++ spell quotes.mark) .text := by
    rw [String.toList_append, String.toList_append]
    exact ((yields_mark quotes).append (yields_choice 1 values)).append (yields_mark quotes)
  have hread : read
      (valueStub name (quotes.mark ++ choice 1 values ++ quotes.mark) detail).insertText =
      some (spell (name ++ ": " ++ quotes.mark) ++
        .choice 1 (offered values) :: spell quotes.mark) := by
    rw [read_valueStub, hvalue.read, Option.map_some, spell_append (name ++ ": "),
      List.append_assoc, List.append_assoc]
    rfl
  rw [holdsQuotedChoice_iff hread, spell_append (name ++ ": ")]
  exact and_iff_left ⟨List.suffix_append .., List.prefix_rfl⟩

theorem literals_injective {values values' : List String}
    (h : Ty.union (values.map .stringLiteral) = .union (values'.map .stringLiteral)) :
    values = values' := by
  refine List.map_injective_iff.mpr (fun a b hab => ?_) (Ty.union.inj h)
  cases hab
  rfl

/-- Only a union of string literals has its stub offer texts between quotation marks, and the texts
are the literals. -/
theorem offers_of_stub (quotes : QuoteStyle) (name : String) (t : Ty) (moreVariants : Bool)
    (stub : Stub) (h : stub? name t moreVariants quotes.mark = some stub) (options : List String) :
    HoldsQuotedChoice quotes.mark options stub.insertText ↔
      ∃ values, t = .union (values.map .stringLiteral) ∧ options = offered values := by
  rcases stub_cases name t moreVariants quotes.mark stub h with
    ⟨s, hs, rfl⟩ | ⟨values, detail, rfl, rfl⟩ | ⟨hunion, value, hvalue, detail, rfl⟩
  · refine iff_of_false (not_offers_of_method _ name s options) ?_
    rintro ⟨values, rfl, -⟩
    cases hs
  · rw [offers_of_quoted_choice]
    constructor
    · exact fun hoptions => ⟨values, rfl, hoptions⟩
    · rintro ⟨values', heq, hoptions⟩
      rw [hoptions, literals_injective heq]
  · refine iff_of_false (not_offers_of_fixed_value quotes name value detail hvalue options) ?_
    rintro ⟨values, ht, -⟩
    exact hunion values ht

theorem exists_stub_of_literals (name quote : String) (values : List String) :
    ∃ stub, stub? name (.union (values.map .stringLiteral)) true quote = some stub := by
  have hvalues : (values.map Ty.stringLiteral).mapM stringLiteral? = some values :=
    (mapM_stringLiteral_iff _ _).mpr rfl
  refine ⟨valueStub name (quote ++ choice 1 values ++ quote) ": \"…\"", ?_⟩
  unfold stub?
  dsimp only [Ty.callSignatures, Ty.object?, Option.map_none, Option.getD_none]
  rw [hvalues]
  rfl

/-! ### The type that a stub is made for -/

theorem mem_of_unionOf_eq_bool (ts : List Ty) (h : Ty.unionOf ts = .bool) : Ty.bool ∈ ts := by
  unfold Ty.unionOf at h
  split at h
  · rename_i t hts
    have hmem : t ∈ Ty.distinct ts := hts ▸ List.mem_singleton.mpr rfl
    rw [h] at hmem
    exact (Ty.mem_distinct ts .bool).mp hmem
  · cases h

/-- A union of string literals is not widened to truth values, so its stub is made for itself. -/
theorem stubType_eq_literals_iff (t : Ty) (values : List String) :
    stubType t = .union (values.map .stringLiteral) ↔
      t.withoutNullish = .union (values.map .stringLiteral) := by
  unfold stubType
  dsimp only
  split
  · rename_i hbool
    refine iff_of_false nofun fun ht => ?_
    rw [Bool.and_eq_true, beq_iff_eq, ht, Ty.widen, Ty.widenAll_eq_map] at hbool
    obtain ⟨literal, hliteral, hwidened⟩ := List.mem_map.mp (mem_of_unionOf_eq_bool _ hbool.2)
    obtain ⟨value, -, rfl⟩ := List.mem_map.mp hliteral
    cases hwidened
  · rfl

/-! ### The stage -/

def withStubs (r : Request) (entries : List Entry) : List Entry :=
  StageRun.left (objectLiterals r entries) entries

def stubOf? (r : Request) (e : Entry) : Option Stub :=
  if (e.kind == .property || e.kind == .method) && !e.isSnippet then
    (r.entryType e).value.bind fun t => stub? e.insertion (stubType t)
      r.settings.objectLiteralCompletions.moreVariants r.formatting.quotes.mark
  else none

variable {r : Request} (hposition : r.cursor.snippetPosition = true)
  (hname : r.atPropertyName = true)

include hposition hname

theorem withStubs_eq_flatMap (entries : List Entry) :
    withStubs r entries = entries.flatMap fun e =>
      ((stubOf? r e).map fun s => r.settings.objectLiteralCompletions.unedited.arrange e
        ((e.withSnippet s.insertText).withDetail s.detail)).getD [e] := by
  rw [withStubs, objectLiterals, hposition, hname, if_neg (by decide), StageRun.left_replace]
  refine List.flatMap_congr fun e _ => ?_
  unfold stubOf?
  split
  · rfl
  · rfl

theorem insertion_withStubs_iff (e : Entry) (hsnippet : e.isSnippet = false) (text : String) :
    (∃ e' ∈ withStubs r [e], e'.isSnippet = true ∧ e'.insertion = text) ↔
      ∃ stub, stubOf? r e = some stub ∧ stub.insertText = text := by
  rw [withStubs_eq_flatMap hposition hname, List.flatMap_singleton]
  cases stubOf? r e with
  | none =>
    refine iff_of_false ?_ nofun
    rintro ⟨e', he', hmade, -⟩
    rw [List.mem_singleton.mp he', hsnippet] at hmade
    cases hmade
  | some stub =>
    constructor
    · rintro ⟨e', he', hmade, rfl⟩
      rcases mem_arrange _ _ _ _ he' with rfl | rfl
      · rw [hsnippet] at hmade
        cases hmade
      · exact ⟨stub, rfl, rfl⟩
    · rintro ⟨_, hstub, rfl⟩
      cases hstub
      exact ⟨_, edited_mem_arrange _ _ _, rfl, rfl⟩

theorem offers_of_entry (hmore : r.settings.objectLiteralCompletions.moreVariants = true)
    (e : Entry) (hkind : e.kind = .property ∨ e.kind = .method) (hsnippet : e.isSnippet = false)
    (t : Ty) (ht : (r.entryType e).value = some t) (options : List String) :
    (∃ e' ∈ withStubs r [e], e'.isSnippet = true ∧
        HoldsQuotedChoice r.formatting.quotes.mark options e'.insertion) ↔
      ∃ values, t.withoutNullish = .union (values.map .stringLiteral) ∧
        options = offered values := by
  have hproperty : ((e.kind == .property || e.kind == .method) && !e.isSnippet) = true := by
    rw [hsnippet, Bool.not_false, Bool.and_true, Bool.or_eq_true, beq_iff_eq, beq_iff_eq]
    exact hkind
  have hstub : stubOf? r e = stub? e.insertion (stubType t) true r.formatting.quotes.mark := by
    rw [stubOf?, if_pos hproperty, ht, hmore]
    rfl
  have hsnippets (text : String) := insertion_withStubs_iff hposition hname e hsnippet text
  constructor
  · rintro ⟨e', he', hmade, hoffers⟩
    obtain ⟨stub, hsome, htext⟩ := (hsnippets _).mp ⟨e', he', hmade, rfl⟩
    rw [hstub] at hsome
    rw [← htext] at hoffers
    obtain ⟨values, htype, hoptions⟩ := (offers_of_stub _ _ _ _ _ hsome options).mp hoffers
    exact ⟨values, (stubType_eq_literals_iff t values).mp htype, hoptions⟩
  · rintro ⟨values, hvalues, hoptions⟩
    have htype := (stubType_eq_literals_iff t values).mpr hvalues
    obtain ⟨stub, hsome⟩ := exists_stub_of_literals e.insertion r.formatting.quotes.mark values
    rw [← htype] at hsome
    obtain ⟨e', he', hmade, htext⟩ := (hsnippets _).mpr ⟨stub, hstub.trans hsome, rfl⟩
    refine ⟨e', he', hmade, ?_⟩
    rw [htext]
    exact (offers_of_stub _ _ _ _ _ hsome options).mpr ⟨values, htype, hoptions⟩

/-- What a property of an object literal is completed with does not depend on the other entries.
Among it, a stub with a choice between quotation marks offers, in their order, the literals of a
union of two or more string literals, which is what the type is but for `null` and `undefined`. That
is so exactly if the type is not a union of fewer literals, such as the one without members that is
left of `null | undefined`. -/
theorem stubs_offer_literals_iff
    (hmore : r.settings.objectLiteralCompletions.moreVariants = true) (entries : List Entry) :
    withStubs r entries = entries.flatMap (fun e => withStubs r [e]) ∧
      ∀ e ∈ entries, e.kind = .property ∨ e.kind = .method → e.isSnippet = false →
        ∀ t, (r.entryType e).value = some t →
          ((∀ e' ∈ withStubs r [e], e'.isSnippet = true →
            ∀ options, HoldsQuotedChoice r.formatting.quotes.mark options e'.insertion →
              ∃ values, t.withoutNullish = .union (values.map .stringLiteral) ∧
                2 ≤ values.length ∧ options = values) ↔
            ∀ values : List String, t.withoutNullish = .union (values.map .stringLiteral) →
              2 ≤ values.length) := by
  refine ⟨?_, fun e _ hkind hsnippet t ht => ?_⟩
  · rw [withStubs_eq_flatMap hposition hname]
    refine List.flatMap_congr fun e _ => ?_
    rw [withStubs_eq_flatMap hposition hname, List.flatMap_singleton]
  have hoffers := offers_of_entry hposition hname hmore e hkind hsnippet t ht
  constructor
  · intro hclaim values hvalues
    obtain ⟨e', he', hmade, hchoice⟩ := (hoffers (offered values)).mpr ⟨values, hvalues, rfl⟩
    obtain ⟨values', hvalues', htwo, -⟩ := hclaim e' he' hmade _ hchoice
    rw [literals_injective (hvalues.symm.trans hvalues')]
    exact htwo
  · intro htwo e' he' hmade options hchoice
    obtain ⟨values, hvalues, hoptions⟩ := (hoffers options).mp ⟨e', he', hmade, hchoice⟩
    have hlength := htwo values hvalues
    have hsome : values ≠ [] := List.ne_nil_of_length_pos (by omega)
    rw [offered, if_neg hsome] at hoptions
    exact ⟨values, hvalues, hlength, hoptions⟩

omit hposition hname

/-! ### A property of an object literal -/

/-- A request for the properties of an object literal; the only one has the given type. -/
def propertyRequest (t : Ty) : Request :=
  let tree : SyntaxTree := { nodes := #[
    { kind := .sourceFile, span := ⟨0, 4⟩, parent := none, children := [1] },
    { kind := .objectLiteralExpression, span := ⟨1, 3⟩, parent := some 0, children := [] }] }
  let program : Program := {
    symbols := #[{ name := "opt", kind := .property, declarations := [] }]
    symbolTypes := [(0, t)] }
  let request : HostRequest := {
    document := .ofFile "/p/src/index.ts" "(\x7b\x7d)" tree
    offset := 2
    checker := program.checker }
  let settings : Settings := { objectLiteralCompletions := { moreVariants := true } }
  Session.stageRequest { settings } request { entries := [] }

def propertyEntry : Entry :=
  { name := "opt", kind := .property, sortText := "11", symbol := some 0 }

theorem place_propertyRequest (t : Ty) : (propertyRequest t).cursor.snippetPosition = true ∧
    (propertyRequest t).atPropertyName = true ∧
    (propertyRequest t).settings.objectLiteralCompletions.moreVariants = true := by
  have hposition : (propertyRequest .any).cursor.snippetPosition = true := by decide +kernel
  have hname : (propertyRequest .any).atPropertyName = true := by decide +kernel
  exact ⟨hposition, hname, rfl⟩

theorem stubs_offer_literals_of_switch :
    (propertyRequest (.union [.stringLiteral "on", .stringLiteral "off", .undefined])
      ).cursor.snippetPosition = true ∧
    "opt: \"$\x7b1|on,off|\x7d\"" ∈ (withStubs (propertyRequest
      (.union [.stringLiteral "on", .stringLiteral "off", .undefined])) [propertyEntry]).map
        (·.insertion) ∧
    ∀ e' ∈ withStubs (propertyRequest
        (.union [.stringLiteral "on", .stringLiteral "off", .undefined])) [propertyEntry],
      e'.isSnippet = true → ∀ options, HoldsQuotedChoice "\"" options e'.insertion →
        ∃ values, Ty.union [.stringLiteral "on", .stringLiteral "off"] =
          .union (values.map .stringLiteral) ∧ 2 ≤ values.length ∧ options = values := by
  obtain ⟨hposition, hname, hmore⟩ :=
    place_propertyRequest (.union [.stringLiteral "on", .stringLiteral "off", .undefined])
  refine ⟨hposition, by decide +kernel, ?_⟩
  refine ((stubs_offer_literals_iff hposition hname hmore [propertyEntry]).2 propertyEntry
    (List.mem_singleton.mpr rfl) (Or.inl rfl) rfl _ rfl).mpr ?_
  intro values hvalues
  have hliterals : Ty.union (["on", "off"].map .stringLiteral) =
      .union (values.map .stringLiteral) := hvalues
  rw [← literals_injective hliterals]
  decide

/-- Nothing is left of the type, and nothing is offered to choose from. -/
theorem stub_of_nullish_offers_nothing :
    (propertyRequest (.union [.null, .undefined])).cursor.snippetPosition = true ∧
    (propertyRequest (.union [.null, .undefined])).atPropertyName = true ∧
    (propertyRequest (.union [.null, .undefined])).settings.objectLiteralCompletions.moreVariants =
      true ∧
    propertyEntry.kind = .property ∧ propertyEntry.isSnippet = false ∧
    ((propertyRequest (.union [.null, .undefined])).entryType propertyEntry).value =
      some (.union [.null, .undefined]) ∧
    ∃ e' ∈ withStubs (propertyRequest (.union [.null, .undefined])) [propertyEntry],
      e'.isSnippet = true ∧ e'.insertion = "opt: \"$\x7b1||\x7d\"" ∧
      HoldsQuotedChoice "\"" [""] e'.insertion ∧
      ¬ ∃ values, (Ty.union [.null, .undefined]).withoutNullish =
        .union (values.map .stringLiteral) ∧ 2 ≤ values.length ∧ [""] = values := by
  obtain ⟨hposition, hname, hmore⟩ := place_propertyRequest (.union [.null, .undefined])
  refine ⟨hposition, hname, hmore, rfl, rfl, rfl, ?_⟩
  have hstub : ∃ e' ∈ withStubs (propertyRequest (.union [.null, .undefined])) [propertyEntry],
      e'.isSnippet = true ∧ e'.insertion = "opt: \"$\x7b1||\x7d\"" := by decide +kernel
  obtain ⟨e', he', hsnippet, htext⟩ := hstub
  refine ⟨e', he', hsnippet, htext, ?_, ?_⟩
  · rw [htext]
    exact ⟨spell "opt: ", [], by decide⟩
  · rintro ⟨values, -, htwo, rfl⟩
    exact absurd htwo (by decide)

end Stage

end CodeCompletion
