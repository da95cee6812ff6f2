import CodeCompletion.Entry.Raw
import CodeCompletion.Proofs.Types.RoundTrip

namespace CodeCompletion

open Decode

/-! ### Spans and labels -/

def Span.IsNat32 (s : Span) : Prop := Decode.IsNat32 s.start ∧ Decode.IsNat32 s.stop

theorem Span.decode_toJson (s : Span) (h : s.IsNat32) : decode s.toJson = some s := by
  apply record_keyed
  rw [bind_of_eq (required_keyed rfl (nat32_nat s.start h.1)),
    bind_of_eq (required_keyed rfl (nat32_nat s.stop h.2))]
  rfl

theorem Span.toJson_ne_null (s : Span) : s.toJson ≠ .null := nofun

theorem LabelDetails.decode_toJson (d : LabelDetails) : decode d.toJson = some d := by
  obtain ⟨detail, description⟩ := d
  apply record_keyed
  rw [bind_of_eq (optional_keyed (o := detail) Json.str _ nofun fun _ _ => rfl),
    bind_of_eq (optional_keyed (o := description) Json.str _ nofun fun _ _ => rfl)]
  · rfl
  · cases detail <;> cases description <;> rfl
  · cases detail <;> cases description <;> rfl

theorem LabelDetails.toJson_ne_null (d : LabelDetails) : d.toJson ≠ .null := nofun

/-! ### Entries -/

structure RawEntry.IsNat32 (e : RawEntry) : Prop where
  symbol : ∀ n ∈ e.symbol, Decode.IsNat32 n
  replacementSpan : ∀ s ∈ e.replacementSpan, s.IsNat32

theorem RawEntry.decode_toJson (e : RawEntry) (h : e.IsNat32) : decode e.toJson = some e := by
  have hlabel : nullable LabelDetails.decode (Json.ofOption LabelDetails.toJson e.labelDetails) =
      some e.labelDetails :=
    nullable_ofOption _ _ _ LabelDetails.toJson_ne_null fun d _ => d.decode_toJson
  have hspan : nullable Span.decode (Json.ofOption Span.toJson e.replacementSpan) =
      some e.replacementSpan :=
    nullable_ofOption _ _ _ Span.toJson_ne_null fun s hs => s.decode_toJson (h.replacementSpan s hs)
  apply record_keyed
  rw [bind_of_eq (required_keyed (a := e.name) rfl rfl),
    bind_of_eq (required_keyed (a := e.kind) rfl rfl),
    bind_of_eq (withDefault_keyed (a := e.kindModifiers) rfl rfl),
    bind_of_eq (required_keyed (a := e.sortText) rfl rfl),
    bind_of_eq (withDefault_keyed rfl (nullable_string e.insertText)),
    bind_of_eq (withDefault_keyed (a := e.isSnippet) rfl rfl),
    bind_of_eq (withDefault_keyed rfl (nullable_string e.source)),
    bind_of_eq (withDefault_keyed rfl (nullable_string e.sourceDisplay)),
    bind_of_eq (withDefault_keyed rfl hlabel),
    bind_of_eq (withDefault_keyed rfl hspan),
    bind_of_eq (withDefault_keyed (a := e.hasAction) rfl rfl),
    bind_of_eq (withDefault_keyed rfl (nullable_nat32 e.symbol h.symbol))]
  rfl

structure RawCompletions.IsNat32 (r : RawCompletions) : Prop where
  entries : ∀ e ∈ r.entries, e.IsNat32
  optionalReplacementSpan : ∀ s ∈ r.optionalReplacementSpan, s.IsNat32

theorem RawCompletions.decode_toJson (r : RawCompletions) (h : r.IsNat32) :
    decode r.toJson = some r := by
  have hspan : nullable Span.decode (Json.ofOption Span.toJson r.optionalReplacementSpan) =
      some r.optionalReplacementSpan :=
    nullable_ofOption _ _ _ Span.toJson_ne_null fun s hs =>
      s.decode_toJson (h.optionalReplacementSpan s hs)
  apply record_keyed
  rw [bind_of_eq (required_keyed rfl
      (list_map RawEntry.toJson _ r.entries fun e he => e.decode_toJson (h.entries e he))),
    bind_of_eq (withDefault_keyed (a := r.isMemberCompletion) rfl rfl),
    bind_of_eq (withDefault_keyed (a := r.isNewIdentifierLocation) rfl rfl),
    bind_of_eq (withDefault_keyed rfl hspan)]
  rfl

/-! ### Everything the engine says -/

/-- Types, entries and whole answers are read back as they were written. -/
theorem engine_data_read_back :
    (∀ t : Ty, (∀ n ∈ t.symbols, Decode.IsNat32 n) → Ty.decode t.toJson = some t) ∧
      (∀ e : RawEntry, e.IsNat32 → RawEntry.decode e.toJson = some e) ∧
      (∀ r : RawCompletions, r.IsNat32 → RawCompletions.decode r.toJson = some r) :=
  ⟨Ty.decode_toJson, RawEntry.decode_toJson, RawCompletions.decode_toJson⟩

def nestedType : Ty :=
  .promise (.array (.object {
    name := some "Props"
    properties := [
      { name := "mode", ty := .union [.stringLiteral "on", .enumMember "Mode" "Off", .null],
        optional := true, symbol := some 4294967295 },
      { name := "inner", ty := .object {} }]
    callSignatures := [{ params := [{ name := "xs", ty := .array .any, rest := true }],
                         ret := .literal (.bool true) }]
    constructSignatures := [{ params := [], ret := .named "Date" }] }))

/-- An entry with a label that says nothing, a source, and no text to insert. -/
def labelledEntry : RawEntry where
  name := "join"
  kind := "function"
  sortText := "16"
  source := some "node:path"
  labelDetails := some {}
  replacementSpan := some ⟨3, 7⟩
  hasAction := true
  symbol := some 0

def labelledAnswer : RawCompletions where
  entries := [labelledEntry]
  isMemberCompletion := true

theorem engine_data_read_back_nested :
    Ty.decode nestedType.toJson = some nestedType ∧
    RawEntry.decode labelledEntry.toJson = some labelledEntry ∧
    RawCompletions.decode labelledAnswer.toJson = some labelledAnswer := by
  have hentry : labelledEntry.IsNat32 := by
    refine ⟨fun n hn => ?_, fun s hs => ?_⟩
    · cases hn
      decide
    · cases hs
      exact ⟨by decide, by decide⟩
  have hanswer : labelledAnswer.IsNat32 := by
    refine ⟨fun e he => ?_, nofun⟩
    rw [List.mem_singleton.mp he]
    exact hentry
  obtain ⟨htypes, hentries, hanswers⟩ := engine_data_read_back
  exact ⟨htypes nestedType (by decide), hentries _ hentry, hanswers _ hanswer⟩

end CodeCompletion
