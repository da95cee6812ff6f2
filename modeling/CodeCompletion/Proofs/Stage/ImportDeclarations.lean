import CodeCompletion.Proofs.Cursor.Word
import CodeCompletion.Proofs.Enrichment.KeptAside
import CodeCompletion.Proofs.Text.Pieces

namespace CodeCompletion

/-! ### Scanning -/

namespace Text

theorem trimStart_append (gap : List Char) {c : Char} (s : List Char)
    (hgap : ∀ b ∈ gap, isBlank b = true) (hc : isBlank c = false) :
    trimStart (gap ++ c :: s) = c :: s := by
  rw [trimStart, List.dropWhile_append_of_pos hgap]
  exact trimStart_of_not_blank hc

theorem dropHead?_append (head s : List Char) : dropHead? head (head ++ s) = some s := by
  have hstarts : head.isPrefixOf (head ++ s) = true :=
    List.isPrefixOf_iff_prefix.mpr (List.prefix_append head s)
  rw [dropHead?, if_pos hstarts, List.drop_left]

theorem occursIn_iff (word s : List Char) : occursIn word s = true ↔ word <:+: s := by
  induction s with
  | nil => rw [occursIn, List.isEmpty_iff, List.infix_nil]
  | cons c s ih =>
    rw [occursIn, Bool.or_eq_true, List.isPrefixOf_iff_prefix, ih, List.infix_cons_iff]

theorem slice_front (s t : List Char) : slice 0 (byteLength s) (s ++ t) = s := by
  have hstart : isBoundary 0 (s ++ t) = true := (isBoundary_iff_exists 0 _).mpr ⟨[], _, rfl, rfl⟩
  have hstop : isBoundary (byteLength s) (s ++ t) = true :=
    (isBoundary_iff_exists _ _).mpr ⟨s, t, rfl, rfl⟩
  have hall : splitAt 0 (s ++ t) = ([], s ++ t) := splitAt_byteLength [] (s ++ t)
  rw [slice, hstart, hstop, hall, Nat.sub_zero, splitAt_byteLength]
  rfl

end Text

theorem Span.slice_front (front rest : String) :
    Span.slice ⟨0, front.utf8ByteSize⟩ (front ++ rest) = front := by
  rw [Span.slice, String.toList_append, ← Text.byteLength_toList, Text.slice_front,
    String.ofList_toList]

def TextEdit.apply (edit : TextEdit) (text : String) : String :=
  let (before, rest) := Text.splitAt edit.range.start text.toList
  let (_, after) := Text.splitAt edit.range.length rest
  String.ofList (before ++ edit.newText.toList ++ after)

theorem TextEdit.apply_insertAt_zero (new text : String) :
    (TextEdit.insertAt 0 new).apply text = new ++ text := by
  have hall : Text.splitAt 0 text.toList = ([], text.toList) :=
    Text.splitAt_byteLength [] text.toList
  have hlength : (Span.empty 0).length = 0 := rfl
  have hstart : (Span.empty 0).start = 0 := rfl
  rw [TextEdit.apply, TextEdit.insertAt]
  dsimp only
  rw [hstart, hall]
  dsimp only
  rw [hlength, hall, List.nil_append, String.ofList_append, String.ofList_toList,
    String.ofList_toList]

/-- Whether a declaration directly below the root of the syntax tree has the text of a statement,
with or without the line feed at its end. -/
def Document.HasImport (d : Document) (statement : String) : Prop :=
  ∃ root id, d.tree.root? = some root ∧ id ∈ d.tree.children root ∧
    d.tree.isKind .importDeclaration id = true ∧
      (d.tree.text id d.text = statement ∨ d.tree.text id d.text ++ "\n" = statement)

def Entry.memberOf (e : Entry) (name : String) : Entry :=
  { e with
    insertText := some ((if e.isSnippet then Snippet.escape name else name) ++ "." ++ e.insertion)
    hasAction := false }

namespace Stage

/-! ### Finding -/

/-- Which texts bind a namespace: between the first asterisk and the word there may be blanks, and
behind the word as well; the name goes up to a blank or the end. -/
theorem bindsNamespace_append (name : String) (hname : name ≠ "")
    (hblank : name.toList.any Text.isBlank = false) (before gap gap' after : List Char)
    (hbefore : '*' ∉ before) (hgap : ∀ c ∈ gap, Text.isBlank c = true)
    (hgap' : ∀ c ∈ gap', Text.isBlank c = true)
    (hafter : ∀ c ∈ after.head?, Text.isBlank c = true) :
    bindsNamespace name
      (before ++ '*' :: (gap ++ ("as".toList ++ (gap' ++ (name.toList ++ after))))) = true := by
  have hplain (c : Char) (hc : c ∈ name.toList) : Text.isBlank c = false :=
    Bool.eq_false_iff.mpr (List.any_eq_false.mp hblank c hc)
  have hnostar (c : Char) (hc : c ∈ before) : (c == '*') = false :=
    beq_false_of_ne fun heq => hbefore (heq ▸ hc)
  have htrim : Text.trimStart (gap ++ ("as".toList ++ (gap' ++ (name.toList ++ after)))) =
      "as".toList ++ (gap' ++ (name.toList ++ after)) :=
    Text.trimStart_append gap _ hgap rfl
  have htrim' : Text.trimStart (gap' ++ (name.toList ++ after)) = name.toList ++ after := by
    obtain ⟨c, rest, hrest⟩ := List.exists_cons_of_ne_nil (mt String.toList_eq_nil_iff.mp hname)
    rw [hrest] at hplain ⊢
    exact Text.trimStart_append gap' _ hgap' (hplain c (List.mem_cons_self ..))
  have htoken : (name.toList ++ after).takeWhile (!Text.isBlank ·) = name.toList := by
    have hstop : after.takeWhile (!Text.isBlank ·) = [] := by
      cases after with
      | nil => rfl
      | cons c after => rw [List.takeWhile_cons_of_neg]; simp [hafter c rfl]
    rw [List.takeWhile_append_of_pos fun c hc => by rw [hplain c hc]; rfl, hstop, List.append_nil]
  rw [bindsNamespace, Text.cutFirst?_append _ before _ hnostar rfl]
  dsimp only
  rw [htrim, Text.dropHead?_append]
  dsimp only
  rw [htrim', htoken]
  exact beq_self_eq_true _

theorem namesModule_append (quotes : QuoteStyle) (source : String) (before after : List Char) :
    namesModule source (before ++ (quotes.mark ++ source ++ quotes.mark).toList ++ after) = true := by
  have hoccurs := (Text.occursIn_iff _ _).mpr
    (List.infix_append before (quotes.mark ++ source ++ quotes.mark).toList after)
  rw [namesModule, Bool.or_eq_true]
  cases quotes with
  | double => exact Or.inl hoccurs
  | single => exact Or.inr hoccurs

def importHead (formatting : Formatting) (name source : String) : String :=
  "import * as " ++ name ++ " from " ++
    (formatting.quotes.mark ++ source ++ formatting.quotes.mark)

theorem importStatement_eq (formatting : Formatting) (name source : String) :
    importStatement formatting name source = importHead formatting name source ++
      (if formatting.semicolons then ";" else "") ++ "\n" := by
  unfold importStatement importHead
  simp only [String.append_assoc]

theorem importHead_begins (formatting : Formatting) (name source text : String)
    (h : text = importStatement formatting name source ∨
      text ++ "\n" = importStatement formatting name source) :
    (importHead formatting name source).toList <+: text.toList := by
  rw [importStatement_eq] at h
  rcases h with rfl | h
  · rw [String.append_assoc, String.toList_append]
    exact List.prefix_append _ _
  · rw [String.append_left_inj] at h
    rw [h, String.toList_append]
    exact List.prefix_append _ _

theorem bindsNamespace_importHead (formatting : Formatting) (name source : String) (hname : name ≠ "")
    (hblank : name.toList.any Text.isBlank = false) (tail : List Char) :
    bindsNamespace name ((importHead formatting name source).toList ++ tail) = true := by
  unfold importHead
  simp only [String.toList_append, List.append_assoc]
  refine bindsNamespace_append name hname hblank "import ".toList [' '] [' '] _ ?_ ?_ ?_ ?_
  · decide
  · exact List.forall_mem_singleton.mpr rfl
  · exact List.forall_mem_singleton.mpr rfl
  · intro c hc
    cases hc
    rfl

theorem namesModule_importHead (formatting : Formatting) (name source : String)
    (tail : List Char) :
    namesModule source ((importHead formatting name source).toList ++ tail) = true := by
  rw [importHead, String.toList_append]
  exact namesModule_append formatting.quotes source _ tail

section Written

variable (formatting : Formatting) (name source : String)

/-- A document that has the statement imports the module under the namespace. -/
theorem hasNamespaceImport_of_hasImport (hname : name ≠ "")
    (hblank : name.toList.any Text.isBlank = false) (d : Document)
    (h : d.HasImport (importStatement formatting name source)) :
    hasNamespaceImport d name source = true := by
  obtain ⟨root, id, hroot, hid, hkind, htext⟩ := h
  obtain ⟨tail, htail⟩ := importHead_begins formatting name source _ htext
  rw [hasNamespaceImport]
  dsimp only
  rw [hroot]
  refine List.any_eq_true.mpr ⟨id, List.mem_filter.mpr ⟨hid, hkind⟩, ?_⟩
  rw [Bool.and_eq_true, ← htail]
  constructor
  · exact bindsNamespace_importHead formatting name source hname hblank tail
  · exact namesModule_importHead formatting name source tail

/-- Once the edit has been made, a declaration that reaches from the start of the document to the
end of what was put in has the text of the statement. -/
theorem hasImport_of_inserted (d : Document) (old : String) (edit : TextEdit)
    (hedit : edit ∈ (importMetadata formatting name source).additionalEdits)
    (hedited : d.text = edit.apply old) (root id stop : Nat) (hroot : d.tree.root? = some root)
    (hid : id ∈ d.tree.children root) (hkind : d.tree.isKind .importDeclaration id = true)
    (hspan : d.tree.span? id = some ⟨0, stop⟩)
    (hstop : stop = edit.newText.utf8ByteSize ∨ stop + 1 = edit.newText.utf8ByteSize) :
    d.HasImport (importStatement formatting name source) := by
  cases List.mem_singleton.mp hedit
  rw [TextEdit.apply_insertAt_zero] at hedited
  refine ⟨root, id, hroot, hid, hkind, ?_⟩
  rw [SyntaxTree.text, hspan, Option.map_some, Option.getD_some, hedited]
  rcases hstop with rfl | hstop
  · exact Or.inl (Span.slice_front _ old)
  · refine Or.inr ?_
    obtain ⟨line, hline⟩ : ∃ line, importStatement formatting name source = line ++ "\n" :=
      ⟨_, importStatement_eq formatting name source⟩
    have hsize : stop + 1 = line.utf8ByteSize + 1 := by
      rw [hstop, TextEdit.insertAt, hline, String.utf8ByteSize_append]
      rfl
    rw [Nat.succ.inj hsize, hline, String.append_assoc, Span.slice_front]

end Written

/-! ### Not asking again -/

theorem qualified_eq_memberOf (r : Request) (e : Entry) (name source : String) (addImport : Bool)
    (hmodule : e.importModule? = some source)
    (hconfigured : r.settings.namespaceImports.lookup source = some { name, addImport }) :
    qualified r e = e.memberOf name := by
  rw [qualified, qualify, hmodule]
  simp only [Option.bind_eq_bind, Option.bind_some, hconfigured]
  rfl

theorem aside_of_found_import (r : Request) (entries : List Entry) (o : Outcome)
    (h : (namespaceImports r entries).value = .ok o) (name source : String) (addImport : Bool)
    (hconfigured : r.settings.namespaceImports.lookup source = some { name, addImport })
    (hfound : hasNamespaceImport r.document name source = true) (label : String) (m : Deferred)
    (hm : o.aside[label]? = some m) :
    ∃ e ∈ entries, e.name = label ∧ ∃ other otherSource, otherSource ≠ source ∧
      e.NeedsImport r other otherSource ∧ m = importMetadata r.formatting other otherSource := by
  obtain ⟨e, he, hlabel, other, otherSource, hneeds, rfl⟩ :=
    aside_of_namespaceImports r entries o h label m hm
  refine ⟨e, he, hlabel, other, otherSource, ?_, hneeds, rfl⟩
  rintro rfl
  have hconfigured' := hneeds.configured
  rw [hconfigured] at hconfigured'
  cases hconfigured'
  rw [hneeds.missing] at hfound
  cases hfound

/-- The import that is written for an entry is found in a document that has it, and the document has
it once the edit has been made. Entries of the module then become members of the namespace, and
whatever is kept aside is kept for entries of other modules. -/
theorem written_import_is_found (formatting : Formatting) (name source : String) (hname : name ≠ "")
    (hblank : name.toList.any Text.isBlank = false) :
    (∀ d : Document, d.HasImport (importStatement formatting name source) →
      hasNamespaceImport d name source = true) ∧
    (∀ (d : Document) (old : String) (root id stop : Nat),
      ∀ edit ∈ (importMetadata formatting name source).additionalEdits, d.text = edit.apply old →
        d.tree.root? = some root → id ∈ d.tree.children root →
        d.tree.isKind .importDeclaration id = true → d.tree.span? id = some ⟨0, stop⟩ →
        (stop = edit.newText.utf8ByteSize ∨ stop + 1 = edit.newText.utf8ByteSize) →
          d.HasImport (importStatement formatting name source)) ∧
    ∀ (r : Request) (entries : List Entry) (addImport : Bool),
      r.document.HasImport (importStatement formatting name source) →
      r.settings.namespaceImports.lookup source = some { name, addImport } →
        ∃ o, (namespaceImports r entries).value = .ok o ∧
          (∀ (i : Nat) (e : Entry), entries[i]? = some e → e.importModule? = some source →
            (o.entriesOr entries)[i]? = some (e.memberOf name)) ∧
          ∀ (label : String) (m : Deferred), o.aside[label]? = some m →
            ∃ e ∈ entries, e.name = label ∧ ∃ other otherSource, otherSource ≠ source ∧
              e.NeedsImport r other otherSource ∧
                m = importMetadata r.formatting other otherSource := by
  have hfound := hasNamespaceImport_of_hasImport formatting name source hname hblank
  refine ⟨hfound, ?_, ?_⟩
  · intro d old root id stop edit hedit hedited hroot hid hkind hspan hstop
    exact hasImport_of_inserted formatting name source d old edit hedit hedited root id stop hroot
      hid hkind hspan hstop
  · intro r entries addImport himport hconfigured
    obtain ⟨_, o, ho, hentries, _⟩ := run_namespaceImports r entries
    refine ⟨o, ho, fun i e he hmodule => ?_, ?_⟩
    · rw [hentries, List.getElem?_map, he, Option.map_some,
        qualified_eq_memberOf r e name source addImport hmodule hconfigured]
    · exact aside_of_found_import r entries o ho name source addImport hconfigured
        (hfound r.document himport)

/-! ### A document that the edit was made in -/

/-- A document with an import of a module under a namespace and a name that is being typed. -/
def importingDocument : Document :=
  .ofFile "/p/src/index.ts" "import * as path from \"node:path\";\njo"
    ⟨#[{ kind := .sourceFile, span := ⟨0, 37⟩, parent := none, children := [1, 2] },
       { kind := .importDeclaration, span := ⟨0, 34⟩, parent := some 0, children := [] },
       { kind := .identifier, span := ⟨35, 37⟩, parent := some 0, children := [] }]⟩

def joinFunction : RawEntry :=
  { name := "join", kind := "function", sortText := "16", source := some "node:path",
    hasAction := true }

def importingRequest : Request :=
  let settings := { namespaceImports := [("node:path", { name := "path" })] }
  let request : HostRequest := {
    document := importingDocument, offset := 37, checker := Program.checker {} }
  Session.stageRequest { settings } request { entries := [joinFunction] }

theorem import_of_path_is_found :
    "path" ≠ "" ∧ "path".toList.any Text.isBlank = false ∧
    importingDocument.HasImport (importStatement {} "path" "node:path") ∧
    hasNamespaceImport importingDocument "path" "node:path" = true ∧
    ∃ o, (namespaceImports importingRequest (Entry.ofRawList [joinFunction])).value = .ok o ∧
      (o.entriesOr (Entry.ofRawList [joinFunction]))[0]?.map (·.insertion) = some "path.join" ∧
      o.aside["join"]? = none := by
  have hname : "path" ≠ "" := by decide
  have hblank : "path".toList.any Text.isBlank = false := by decide
  obtain ⟨hfound, hinserted, hstage⟩ := written_import_is_found {} "path" "node:path" hname hblank
  have himport : importingDocument.HasImport (importStatement {} "path" "node:path") := by
    refine hinserted importingDocument "jo" 0 1 34 _ (List.mem_singleton.mpr rfl) ?_ rfl ?_ rfl rfl ?_
    · rw [TextEdit.apply_insertAt_zero]
      decide
    · decide
    · decide
  refine ⟨hname, hblank, himport, hfound importingDocument himport, ?_⟩
  obtain ⟨o, ho, hmembers, haside⟩ :=
    hstage importingRequest (Entry.ofRawList [joinFunction]) true himport rfl
  refine ⟨o, ho, ?_, ?_⟩
  · rw [hmembers 0 _ rfl rfl]
    decide
  · rw [Option.eq_none_iff_forall_not_mem]
    intro m hm
    obtain ⟨e, he, _, other, otherSource, hother, hneeds, _⟩ := haside "join" m hm
    cases List.mem_singleton.mp he
    exact hother (Option.some.inj hneeds.isImport).symm

end Stage

end CodeCompletion
