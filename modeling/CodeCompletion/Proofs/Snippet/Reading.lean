import CodeCompletion.Snippet
import Mathlib.Data.List.Basic

/-!
# Reading snippets

How an editor reads a snippet: a backslash takes away the meaning of the character behind it,
`$1` is a tab stop, `${1:` opens a placeholder that ends at the first bare `}`, and `${1|` opens
a choice whose options end at bare commas and at a bare `|`. What the snippets of this library
are put together from is read back one part after the other, whatever stands behind.
-/

namespace CodeCompletion.Snippet

/-! ### The reader -/

/-- A character of a snippet, as it stands or behind a backslash. -/
inductive Sign where
  | bare (c : Char)
  | quoted (c : Char)
  deriving Repr, DecidableEq

def signs : List Char → List Sign
  | [] => []
  | [c] => [.bare c]
  | c :: d :: rest => if c = '\\' then .quoted d :: signs rest else .bare c :: signs (d :: rest)

inductive Piece where
  | char (c : Char)
  | tabStop (index : Nat)
  | placeholder (index : Nat) (shown : String)
  | choice (index : Nat) (options : List String)
  deriving Repr, DecidableEq

def spell (text : String) : List Piece :=
  text.toList.map .char

/-- Where the reader stands: outside, behind `$` and the digits after it, behind `${` and the
digits after it, in a placeholder, in an option, behind the `|` that ends the options. -/
inductive Reading where
  | text
  | tabStop (index : Option Nat)
  | braces (index : Option Nat)
  | shown (index : Nat) (soFar : List Char)
  | option (index : Nat) (options : List String) (soFar : List Char)
  | closing (index : Nat) (options : List String)
  deriving Repr, DecidableEq

namespace Reading

def addDigit (index : Option Nat) (c : Char) : Option Nat :=
  some (Nat.ofDigitChars 10 [c] (index.getD 0))

def stepText : Sign → List Piece × Reading
  | .quoted c => ([.char c], .text)
  | .bare c => if c = '$' then ([], .tabStop none) else ([.char c], .text)

def stepTabStop : Option Nat → Sign → Option (List Piece × Reading)
  | none, .quoted _ => none
  | none, .bare c =>
    if c = '\x7b' then some ([], .braces none)
    else if c.isDigit then some ([], .tabStop (addDigit none c))
    else none
  | some n, .quoted c => some ([.tabStop n, .char c], .text)
  | some n, .bare c =>
    if c.isDigit then some ([], .tabStop (addDigit (some n) c))
    else some (.tabStop n :: (stepText (.bare c)).1, (stepText (.bare c)).2)

def stepBraces : Option Nat → Sign → Option (List Piece × Reading)
  | _, .quoted _ => none
  | index, .bare c =>
    if c.isDigit then some ([], .braces (addDigit index c))
    else index.bind fun n =>
      if c = ':' then some ([], .shown n [])
      else if c = '|' then some ([], .option n [] [])
      else none

def stepShown (n : Nat) (soFar : List Char) : Sign → Option (List Piece × Reading)
  | .quoted c => some ([], .shown n (soFar ++ [c]))
  | .bare c =>
    if c = '\x7d' then some ([.placeholder n (String.ofList soFar)], .text)
    else if c = '$' then none
    else some ([], .shown n (soFar ++ [c]))

def stepOption (n : Nat) (options : List String) (soFar : List Char) :
    Sign → Option (List Piece × Reading)
  | .quoted c => some ([], .option n options (soFar ++ [c]))
  | .bare c =>
    if c = ',' then some ([], .option n (options ++ [String.ofList soFar]) [])
    else if c = '|' then some ([], .closing n (options ++ [String.ofList soFar]))
    else some ([], .option n options (soFar ++ [c]))

def stepClosing (n : Nat) (options : List String) : Sign → Option (List Piece × Reading)
  | .quoted _ => none
  | .bare c => if c = '\x7d' then some ([.choice n options], .text) else none

/-- What one character completes, and where the reader stands behind it. A placeholder inside
a placeholder and a `$` that opens nothing are not read. -/
def step : Reading → Sign → Option (List Piece × Reading)
  | .text, sign => some (stepText sign)
  | .tabStop index, sign => stepTabStop index sign
  | .braces index, sign => stepBraces index sign
  | .shown n soFar, sign => stepShown n soFar sign
  | .option n options soFar, sign => stepOption n options soFar sign
  | .closing n options, sign => stepClosing n options sign

def finish : Reading → Option (List Piece)
  | .text => some []
  | .tabStop (some n) => some [.tabStop n]
  | _ => none

def run : Reading → List Sign → Option (List Piece)
  | reading, [] => reading.finish
  | reading, sign :: rest =>
    (reading.step sign).bind fun (pieces, next) => (run next rest).map (pieces ++ ·)

end Reading

def read (snippet : String) : Option (List Piece) :=
  Reading.text.run (signs snippet.toList)

theorem signs_bare (c : Char) (h : c ≠ '\\') (rest : List Char) :
    signs (c :: rest) = .bare c :: signs rest := by
  cases rest with
  | nil => rfl
  | cons d rest => rw [signs, if_neg h]

theorem signs_quoted (c : Char) (rest : List Char) :
    signs ('\\' :: c :: rest) = .quoted c :: signs rest := by
  rw [signs, if_pos rfl]

/-! ### Reading part by part -/

/-- From `r` on, `text` is read as `pieces` and leads to `r'`, whatever stands behind. -/
def Yields (r : Reading) (text : List Char) (pieces : List Piece) (r' : Reading) : Prop :=
  ∀ rest, r.run (signs (text ++ rest)) = (r'.run (signs rest)).map (pieces ++ ·)

namespace Yields

variable {r r' r'' : Reading} {text text' : List Char} {pieces pieces' : List Piece}

theorem nil (r : Reading) : Yields r [] [] r := by
  intro rest
  simp

theorem append (h : Yields r text pieces r') (h' : Yields r' text' pieces' r'') :
    Yields r (text ++ text') (pieces ++ pieces') r'' := by
  intro rest
  rw [List.append_assoc, h, h', Option.map_map]
  congr 1
  funext tail
  exact (List.append_assoc pieces pieces' tail).symm

theorem bare {c : Char} (hc : c ≠ '\\') (h : r.step (.bare c) = some (pieces, r')) :
    Yields r [c] pieces r' := by
  intro rest
  rw [List.singleton_append, signs_bare c hc, Reading.run, h]
  rfl

theorem quoted {c : Char} (h : r.step (.quoted c) = some (pieces, r')) :
    Yields r ['\\', c] pieces r' := by
  intro rest
  rw [List.cons_append, List.singleton_append, signs_quoted, Reading.run, h]
  rfl

theorem char {c : Char} (hback : c ≠ '\\') (hdollar : c ≠ '$') :
    Yields .text [c] [.char c] .text :=
  bare hback (by rw [Reading.step, Reading.stepText, if_neg hdollar])

theorem read_append {front : String} (h : Yields .text front.toList pieces .text)
    (back : String) : read (front ++ back) = (read back).map (pieces ++ ·) := by
  rw [Snippet.read, String.toList_append, h]
  rfl

theorem read {snippet : String} (h : Yields .text snippet.toList pieces .text) :
    read snippet = some pieces := by
  have hread := h.read_append ""
  rw [String.append_empty] at hread
  rw [hread]
  exact congrArg some (List.append_nil pieces)

end Yields

/-! ### Escaped texts -/

/-- Every character of an escaped text is read as itself, the special ones because they are quoted.
`next` is where the reader stands behind the characters so far. -/
theorem yields_escaped (isSpecial : Char → Bool) (hback : isSpecial '\\' = true)
    (next : List Char → Reading) (out : Char → List Piece)
    (hquoted : ∀ cs c, (next cs).step (.quoted c) = some (out c, next (cs ++ [c])))
    (hbare : ∀ cs c, isSpecial c = false →
      (next cs).step (.bare c) = some (out c, next (cs ++ [c])))
    (text before : List Char) :
    Yields (next before) (text.flatMap fun c => if isSpecial c then ['\\', c] else [c])
      (text.flatMap out) (next (before ++ text)) := by
  induction text generalizing before with
  | nil =>
    rw [List.flatMap_nil, List.flatMap_nil, List.append_nil]
    exact .nil _
  | cons c text ih =>
    have hhead : Yields (next before) (if isSpecial c then ['\\', c] else [c]) (out c)
        (next (before ++ [c])) := by
      split
      · exact .quoted (hquoted before c)
      · rename_i hc
        have hne : c ≠ '\\' := by
          rintro rfl
          exact hc hback
        exact .bare hne (hbare before c (Bool.eq_false_iff.mpr hc))
    have htail := ih (before ++ [c])
    rw [List.append_assoc, List.singleton_append] at htail
    rw [List.flatMap_cons, List.flatMap_cons]
    exact hhead.append htail

theorem toList_escapeWhere (isSpecial : Char → Bool) (text : String) :
    (escapeWhere isSpecial text).toList =
      text.toList.flatMap fun c => if isSpecial c then ['\\', c] else [c] :=
  String.toList_ofList

theorem spell_append (a b : String) : spell (a ++ b) = spell a ++ spell b := by
  rw [spell, String.toList_append, List.map_append]
  rfl

theorem spell_eq_flatMap (text : String) : spell text = text.toList.flatMap fun c => [.char c] := by
  rw [spell, List.map_eq_flatMap]

theorem flatMap_nothing (cs : List Char) : (cs.flatMap fun _ => ([] : List Piece)) = [] :=
  List.flatMap_eq_nil_iff.mpr fun _ _ => rfl

theorem not_special (c : Char) (h : (c == '$' || c == '\x7d' || c == '\\') = false) :
    c ≠ '$' ∧ c ≠ '\x7d' := by
  simp only [Bool.or_eq_false_iff, beq_eq_false_iff_ne] at h
  exact ⟨h.1.1, h.1.2⟩

/-- Escaped text outside stands for itself. -/
theorem yields_escape (text : String) :
    Yields .text (escape text).toList (spell text) .text := by
  rw [escape, toList_escapeWhere, spell_eq_flatMap]
  refine yields_escaped _ rfl (fun _ => .text) (fun c => [.char c]) (fun _ _ => rfl) ?_ _ []
  intro _ c hc
  rw [Reading.step, Reading.stepText, if_neg (not_special c hc).1]

/-- Escaped text in a placeholder neither ends it nor opens another. -/
theorem yields_escape_shown (n : Nat) (text : String) :
    Yields (.shown n []) (escape text).toList [] (.shown n text.toList) := by
  have h := yields_escaped (fun c => c == '$' || c == '\x7d' || c == '\\') rfl (.shown n)
    (fun _ => []) (fun _ _ => rfl) (by
      intro _ c hc
      obtain ⟨hdollar, hbrace⟩ := not_special c hc
      rw [Reading.step, Reading.stepShown, if_neg hbrace, if_neg hdollar]) text.toList []
  rw [flatMap_nothing, List.nil_append] at h
  rw [escape, toList_escapeWhere]
  exact h

theorem yields_escapeOption (n : Nat) (options : List String) (text : String) :
    Yields (.option n options []) (escapeOption text).toList []
      (.option n options text.toList) := by
  have h := yields_escaped
    (fun c => c == '$' || c == '\x7d' || c == '\\' || c == ',' || c == '|') rfl
    (.option n options) (fun _ => []) (fun _ _ => rfl) (by
      intro _ c hc
      simp only [Bool.or_eq_false_iff, beq_eq_false_iff_ne] at hc
      rw [Reading.step, Reading.stepOption, if_neg hc.1.2, if_neg hc.2]) text.toList []
  rw [flatMap_nothing, List.nil_append] at h
  rw [escapeOption, toList_escapeWhere]
  exact h

/-! ### Numbers -/

theorem yields_digits (next : Option Nat → Reading)
    (hstep : ∀ index c, c.isDigit = true →
      (next index).step (.bare c) = some ([], next (Reading.addDigit index c)))
    (digits : List Char) (hdigits : ∀ c ∈ digits, c.isDigit = true) (n : Nat) :
    Yields (next (some n)) digits [] (next (some (Nat.ofDigitChars 10 digits n))) := by
  induction digits generalizing n with
  | nil => exact .nil _
  | cons c digits ih =>
    have hc : c.isDigit = true := hdigits c (List.mem_cons_self ..)
    have hback : c ≠ '\\' := by
      rintro rfl
      exact absurd hc (by decide)
    have hhead : Yields (next (some n)) [c] [] (next (some (Nat.ofDigitChars 10 [c] n))) :=
      .bare hback (hstep (some n) c hc)
    exact hhead.append (ih (fun d hd => hdigits d (List.mem_cons_of_mem _ hd)) _)

theorem yields_number (next : Option Nat → Reading)
    (hstep : ∀ index c, c.isDigit = true →
      (next index).step (.bare c) = some ([], next (Reading.addDigit index c))) (n : Nat) :
    Yields (next none) (toString n).toList [] (next (some n)) := by
  have hdigits : ∀ c ∈ Nat.toDigits 10 n, c.isDigit = true := fun c hc =>
    Nat.isDigit_of_mem_toDigits (by decide) (by decide) hc
  have hvalue : Nat.ofDigitChars 10 (Nat.toDigits 10 n) 0 = n :=
    Nat.ofDigitChars_toDigits (by decide) (by decide)
  have hzero := yields_digits next hstep (Nat.toDigits 10 n) hdigits 0
  rw [hvalue] at hzero
  have htext : (toString n).toList = Nat.toDigits 10 n := Nat.toList_repr
  rw [htext]
  -- the reader that has seen no digit takes the first one as the reader at zero does
  cases hcs : Nat.toDigits 10 n with
  | nil => exact absurd hcs Nat.toDigits_ne_nil
  | cons c digits =>
    rw [hcs] at hzero hdigits
    have hc : c.isDigit = true := hdigits c (List.mem_cons_self ..)
    have hback : c ≠ '\\' := by
      rintro rfl
      exact absurd hc (by decide)
    intro rest
    rw [← hzero rest, List.cons_append, signs_bare c hback, Reading.run, Reading.run,
      hstep none c hc, hstep (some 0) c hc]
    rfl

/-! ### Tab stops, placeholders and choices -/

theorem yields_tabStop (n : Nat) :
    Yields .text ("$" ++ toString n).toList [] (.tabStop (some n)) := by
  have hdollar : Yields .text ['$'] [] (.tabStop none) := .bare (by decide) rfl
  have hnumber := yields_number .tabStop (by
    intro index c hc
    have hbrace : c ≠ '\x7b' := by
      rintro rfl
      exact absurd hc (by decide)
    cases index with
    | none => rw [Reading.step, Reading.stepTabStop, if_neg hbrace, if_pos hc]
    | some n => rw [Reading.step, Reading.stepTabStop, if_pos hc]) n
  rw [String.toList_append]
  exact hdollar.append hnumber

theorem yields_open (n : Nat) :
    Yields .text ("$\x7b" ++ toString n).toList [] (.braces (some n)) := by
  have hdollar : Yields .text ['$'] [] (.tabStop none) := .bare (by decide) rfl
  have hbrace : Yields (.tabStop none) ['\x7b'] [] (.braces none) := .bare (by decide) rfl
  have hnumber := yields_number .braces (by
    intro index c hc
    rw [Reading.step, Reading.stepBraces, if_pos hc]) n
  rw [String.toList_append]
  exact (hdollar.append hbrace).append hnumber

/-- A placeholder shows exactly the text it was made for. -/
theorem yields_placeholder (n : Nat) (text : String) :
    Yields .text (placeholder n text).toList [.placeholder n text] .text := by
  have hcolon : Yields (.braces (some n)) [':'] [] (.shown n []) := .bare (by decide) rfl
  have hclose : Yields (.shown n text.toList) ['\x7d'] [.placeholder n text] .text :=
    .bare (by decide) (by
      rw [Reading.step, Reading.stepShown, if_pos rfl, String.ofList_toList])
  rw [placeholder, String.toList_append, String.toList_append, String.toList_append]
  exact (((yields_open n).append hcolon).append (yields_escape_shown n text)).append hclose

/-- The options of a choice are read up to the `|` behind the last one. -/
theorem yields_options (n : Nat) (first : String) (options done : List String) :
    Yields (.option n done []) (",".intercalate ((first :: options).map escapeOption)).toList []
      (.option n (done ++ (first :: options).dropLast)
        ((first :: options).getLast (List.cons_ne_nil _ _)).toList) := by
  induction options generalizing first done with
  | nil =>
    rw [List.map_singleton, String.intercalate_singleton, List.dropLast_singleton,
      List.append_nil, List.getLast_singleton]
    exact yields_escapeOption n done first
  | cons second options ih =>
    -- Each option but the last is complete at the comma behind it.
    have hcomma : Yields (.option n done first.toList) [','] [] (.option n (done ++ [first]) []) :=
      .bare (by decide) (by
        rw [Reading.step, Reading.stepOption, if_pos rfl, String.ofList_toList])
    have htail := ih second (done ++ [first])
    rw [List.append_assoc, List.singleton_append] at htail
    rw [List.map_cons, List.map_cons, String.intercalate_cons_cons, String.toList_append,
      String.toList_append, List.dropLast_cons_cons, List.getLast_cons_cons]
    exact ((yields_escapeOption n done first).append hcomma).append htail

/-- The options that a choice offers: one without any shows an empty one. -/
def offered (options : List String) : List String :=
  if options = [] then [""] else options

/-- A choice offers exactly the texts it was made for, in their order. -/
theorem yields_choice (n : Nat) (options : List String) :
    Yields .text (choice n options).toList [.choice n (offered options)] .text := by
  have hopen : Yields (.braces (some n)) ['|'] [] (.option n [] []) := .bare (by decide) rfl
  have hend : ∀ done last, Yields (.option n done last.toList) ['|', '\x7d']
      [.choice n (done ++ [last])] .text := by
    intro done last
    have hbar : Yields (.option n done last.toList) ['|'] [] (.closing n (done ++ [last])) :=
      .bare (by decide) (by
        rw [Reading.step, Reading.stepOption, if_neg (by decide), if_pos rfl,
          String.ofList_toList])
    have hbrace : Yields (.closing n (done ++ [last])) ['\x7d'] [.choice n (done ++ [last])]
        .text := .bare (by decide) rfl
    exact hbar.append hbrace
  have hoptions : Yields (.option n [] [])
      ((",".intercalate (options.map escapeOption)).toList ++ ['|', '\x7d'])
      [.choice n (offered options)] .text := by
    cases options with
    | nil => exact hend [] ""
    | cons first options =>
      have h := (yields_options n first options []).append (hend _ _)
      rw [List.nil_append, List.nil_append, List.dropLast_append_getLast] at h
      exact h
  have h := ((yields_open n).append hopen).append hoptions
  rw [choice, String.toList_append, String.toList_append, String.toList_append,
    List.append_assoc]
  exact h

/-! ### Lists of parts -/

theorem yields_intercalate {α : Type} (sep : String) (between : List Piece)
    (hsep : Yields .text sep.toList between .text) (part : α → String) (pieces : α → List Piece)
    (items : List α)
    (hparts : ∀ item ∈ items, Yields .text (part item).toList (pieces item) .text) :
    Yields .text (sep.intercalate (items.map part)).toList
      (between.intercalate (items.map pieces)) .text := by
  induction items with
  | nil => exact .nil _
  | cons item items ih =>
    have hitem := hparts item (List.mem_cons_self ..)
    have htail := ih fun next hnext => hparts next (List.mem_cons_of_mem _ hnext)
    cases items with
    | nil =>
      rw [List.map_singleton, List.map_singleton, String.intercalate_singleton,
        List.intercalate_singleton]
      exact hitem
    | cons next items =>
      rw [List.map_cons, List.map_cons, List.map_cons, List.map_cons,
        String.intercalate_cons_cons, List.intercalate_cons_cons, String.toList_append,
        String.toList_append]
      exact (hitem.append hsep).append htail

theorem yields_placeholders (texts : List String) :
    Yields .text (placeholders texts).toList
      ((spell ", ").intercalate (texts.mapIdx fun i text => [.placeholder (i + 1) text]))
      .text := by
  have hsep : Yields .text ", ".toList (spell ", ") .text :=
    Yields.append (.char (by decide) (by decide)) (.char (by decide) (by decide))
  rw [placeholders, List.mapIdx_eq_zipIdx_map, List.mapIdx_eq_zipIdx_map]
  exact yields_intercalate ", " (spell ", ") hsep _ _ texts.zipIdx fun item _ =>
    yields_placeholder (item.2 + 1) item.1

end CodeCompletion.Snippet
