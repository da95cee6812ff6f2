import CodeCompletion.Proofs.Pattern.Expression
import CodeCompletion.Proofs.Pattern.Matching

/-!
# Patterns as searches

A pattern can also be left to a library of regular expressions: the texts around the `*` are escaped
and searched for between the two ends of a name, with any run of characters in between. Whatever
library does what its manual says, it accepts the names that the pattern accepts.
-/

namespace CodeCompletion

/-! ### The names between two ends -/

namespace Expression

/-- The expression for a pattern with a `*` between `head` and `tail`. -/
def gap (head tail : String) : Expression :=
  .both .textStart (.both (.word head) (.both .anything (.both (.word tail) .textEnd)))

/-- With both ends of the text in the expression, a search has no choice where to start and to stop.
-/
theorem finds_gap_iff (head tail : String) (s : List Char) :
    (∃ front found back, s = front ++ found ++ back ∧ (gap head tail).Finds front found back) ↔
      ∃ middle, s = head.toList ++ middle ++ tail.toList := by
  constructor
  · rintro ⟨front, _, back, rfl, hgap⟩
    obtain ⟨_, _, rfl, ⟨⟩, hgap⟩ := finds_both_iff.mp hgap
    obtain ⟨_, _, rfl, ⟨⟩, hgap⟩ := finds_both_iff.mp hgap
    obtain ⟨middle, _, rfl, -, hgap⟩ := finds_both_iff.mp hgap
    obtain ⟨_, _, rfl, ⟨⟩, ⟨⟩⟩ := finds_both_iff.mp hgap
    exact ⟨middle, by simp only [List.nil_append, List.append_nil, List.append_assoc]⟩
  · rintro ⟨middle, rfl⟩
    refine ⟨[], [] ++ (head.toList ++ (middle ++ (tail.toList ++ []))), [],
      by simp only [List.nil_append, List.append_nil, List.append_assoc], ?_⟩
    exact .both (.textStart _)
      (.both (.word ..) (.both (.anything ..) (.both (.word ..) (.textEnd _))))

end Expression

/-! ### Patterns left to a library -/

namespace RegexLibrary

inductive Matcher (Regex : Type) where
  | exact (name : String)
  | wildcard (regex : Regex)

/-- Why a text is no pattern, or none that the library can run. -/
inductive MatcherError where
  | tooManyWildcards (pattern : String)
  | invalid (pattern message : String)

variable (lib : RegexLibrary)

def gapSource (head tail : String) : String :=
  "(?s)^" ++ lib.escape head ++ ".*" ++ lib.escape tail ++ "$"

def readPattern (text : String) : Except MatcherError (Matcher lib.Regex) :=
  match Text.cutFirst? (· == '*') text.toList with
  | none => .ok (.exact text)
  | some (head, tail) =>
    if tail.contains '*' then .error (.tooManyWildcards text)
    else match lib.compile (lib.gapSource (String.ofList head) (String.ofList tail)) with
      | .ok regex => .ok (.wildcard regex)
      | .error message => .error (.invalid text message)

def accepts : Matcher lib.Regex → String → Bool
  | .exact name, s => name == s
  | .wildcard regex, s => lib.isMatch regex s

/-- The text is not too large to be a pattern. -/
def Takes (text : String) : Prop :=
  ∀ head tail, Text.cutFirst? (· == '*') text.toList = some (head, tail) → '*' ∉ tail →
    lib.WithinLimits (lib.gapSource (String.ofList head) (String.ofList tail))

theorem gapSource_eq (head tail : String) :
    lib.gapSource head tail = "(?s)" ++ (Expression.gap head tail).source lib.escape := by
  have hstart : "(?s)^" = "(?s)" ++ "^" := rfl
  simp only [gapSource, Expression.gap, Expression.source, hstart, String.append_assoc]

variable {lib}

theorem Documented.isMatch_gapSource (h : lib.Documented) {head tail : String}
    (hlimits : lib.WithinLimits (lib.gapSource head tail)) :
    ∃ regex, lib.compile (lib.gapSource head tail) = .ok regex ∧
      ∀ name, lib.isMatch regex name = true ↔
        ∃ middle, name.toList = head.toList ++ middle ++ tail.toList := by
  rw [gapSource_eq] at hlimits ⊢
  obtain ⟨regex, hcompile, hsearch⟩ := h _ hlimits
  exact ⟨regex, hcompile, fun name =>
    (hsearch name).trans (Expression.finds_gap_iff head tail name.toList)⟩

end RegexLibrary

/-! ### Reading a text as a pattern -/

/-- What it is to read a text as a pattern: a `*` is a gap for any text, there is at most one, and
nothing else is special. -/
structure ReadsAsPattern {ε μ : Type} (text : String) (refusal : ε) (read : Except ε μ)
    (accepts : μ → String → Bool) : Prop where
  /-- There is one reason to refuse a text. -/
  fails_iff (e : ε) : read = .error e ↔ 1 < text.toList.count '*' ∧ e = refusal
  exact : '*' ∉ text.toList →
    ∃ m, read = .ok m ∧ ∀ name, accepts m name = true ↔ name = text
  gap (head tail : String) : '*' ∉ head.toList → '*' ∉ tail.toList → text = head ++ "*" ++ tail →
    ∃ m, read = .ok m ∧
      ∀ name, accepts m name = true ↔ ∃ middle, name = head ++ middle ++ tail

theorem ReadsAsPattern.of_cut {ε μ : Type} {text : String} {refusal : ε} {read : Except ε μ}
    {accepts : μ → String → Bool}
    (hnone : Text.cutFirst? (· == '*') text.toList = none →
      ∃ m, read = .ok m ∧ ∀ name, accepts m name = true ↔ name = text)
    (hone : ∀ head tail, Text.cutFirst? (· == '*') text.toList = some (head, tail) → '*' ∉ tail →
      ∃ m, read = .ok m ∧
        ∀ name, accepts m name = true ↔ ∃ middle, name.toList = head ++ middle ++ tail)
    (hmore : ∀ head tail, Text.cutFirst? (· == '*') text.toList = some (head, tail) → '*' ∈ tail →
      read = .error refusal) : ReadsAsPattern text refusal read accepts where
  fails_iff e := by
    rw [Text.count_eq_of_cutFirst?]
    cases hcut : Text.cutFirst? (· == '*') text.toList with
    | none =>
      obtain ⟨m, rfl, -⟩ := hnone hcut
      simp
    | some cut =>
      obtain ⟨head, tail⟩ := cut
      by_cases hstar : '*' ∈ tail
      · rw [hmore head tail hcut hstar]
        have hpos := List.count_pos_iff.mpr hstar
        simp [hpos, eq_comm]
      · obtain ⟨m, rfl, -⟩ := hone head tail hcut hstar
        simp [List.count_eq_zero.mpr hstar]
  exact hstar := hnone ((Text.cutFirst?_eq_none_iff '*' _).mpr hstar)
  gap head tail hhead htail htext := by
    have hlist : text.toList = head.toList ++ '*' :: tail.toList := by simp [htext]
    obtain ⟨m, hread, haccepts⟩ := hone head.toList tail.toList
      ((Text.cutFirst?_eq_some_iff '*' _ _ _).mpr ⟨hlist, hhead⟩) htail
    refine ⟨m, hread, fun name => (haccepts name).trans ?_⟩
    constructor
    · rintro ⟨middle, hname⟩
      exact ⟨String.ofList middle, by rw [← String.toList_inj, hname]; simp⟩
    · rintro ⟨middle, rfl⟩
      exact ⟨middle.toList, by simp⟩

theorem RegexLibrary.Documented.readsAsPattern {lib : RegexLibrary} (h : lib.Documented)
    {text : String} (htakes : lib.Takes text) :
    ReadsAsPattern text (.tooManyWildcards text) (lib.readPattern text) lib.accepts := by
  refine .of_cut (fun hcut => ?_) (fun head tail hcut hstar => ?_) fun head tail hcut hstar => ?_
  · refine ⟨.exact text, by rw [RegexLibrary.readPattern, hcut], fun name => ?_⟩
    exact beq_iff_eq.trans eq_comm
  · obtain ⟨regex, hcompile, hsearch⟩ := h.isMatch_gapSource (htakes head tail hcut hstar)
    refine ⟨.wildcard regex, ?_, fun name => ?_⟩
    · simp [RegexLibrary.readPattern, hcut, hstar, hcompile]
    · have hname := hsearch name
      rw [String.toList_ofList, String.toList_ofList] at hname
      exact hname
  · simp [RegexLibrary.readPattern, hcut, hstar]

namespace NamePattern

theorem readsAsPattern_compile (text : String) :
    ReadsAsPattern text (.tooManyWildcards text) (compile text) accepts := by
  refine .of_cut (fun hcut => ?_) (fun head tail hcut hstar => ?_) fun head tail hcut hstar => ?_
  · refine ⟨.exact text, by rw [compile, hcut], fun name => ?_⟩
    exact beq_iff_eq.trans eq_comm
  · refine ⟨.wildcard (String.ofList head) (String.ofList tail), ?_, fun name => ?_⟩
    · simp [compile, hcut, hstar]
    · exact accepts_wildcard_iff name head tail
  · simp [compile, hcut, hstar]

/-- A pattern and the search that a library runs in its place stand for the same names. -/
theorem pattern_leaves_one_gap (text : String) :
    ReadsAsPattern text (.tooManyWildcards text) (compile text) accepts ∧
      ∀ lib : RegexLibrary, lib.Documented → lib.Takes text →
        ReadsAsPattern text (.tooManyWildcards text) (lib.readPattern text) lib.accepts :=
  ⟨readsAsPattern_compile text, fun _ h htakes => h.readsAsPattern htakes⟩

theorem takes_dollar_dots : Backtracking.library.Takes "$.*.$" := by
  intro head tail hcut _
  have hends : Text.cutFirst? (· == '*') "$.*.$".toList = some ("$.".toList, ".$".toList) := by
    decide
  rw [hends] at hcut
  cases hcut
  show _ ≤ Backtracking.maxLength
  decide

/-- The gap takes line ends, the dots are no gaps, and the two ends do not share a dot. -/
theorem dollar_dots_leave_one_gap :
    Backtracking.library.Documented ∧ Backtracking.library.Takes "$.*.$" ∧
      ∃ m, Backtracking.library.readPattern "$.*.$" = .ok m ∧
        Backtracking.library.accepts m "$.a\nb.$" = true ∧
        Backtracking.library.accepts m "$a.b.$" = false ∧
        Backtracking.library.accepts m "$.$" = false := by
  have hreads := (pattern_leaves_one_gap "$.*.$").2 Backtracking.library Backtracking.documented
    takes_dollar_dots
  obtain ⟨m, hread, haccepts⟩ := hreads.gap "$." ".$" (by decide) (by decide) rfl
  refine ⟨Backtracking.documented, takes_dollar_dots, m, hread, ?_, ?_, ?_⟩
  · exact (haccepts _).mpr ⟨"a\nb", rfl⟩
  · rw [← Bool.not_eq_true, haccepts]
    rintro ⟨middle, hname⟩
    have hlist := congrArg String.toList hname
    simp at hlist
  · rw [← Bool.not_eq_true, haccepts]
    rintro ⟨middle, hname⟩
    have hlength := congrArg String.length hname
    rw [String.length_append, String.length_append] at hlength
    change 3 = 2 + middle.length + 2 at hlength
    omega

end NamePattern

end CodeCompletion
