import CodeCompletion.Snippet
import CodeCompletion.Stage.Labels
import Mathlib.Data.List.Infix

/-!
# Texts without marks

Stages mark names by putting a text in front of them. Texts without marks stay so when they are put
together, as long as no mark comes about where two of them meet: that takes a text that ends like
the mark of the standard library begins, and one that begins with a blank.
-/

namespace CodeCompletion

/-- What stages put in front of names. -/
def decorations : List String := [Stage.libraryMark, Stage.prototypeMark, Stage.ownMemberMark]

def Text.HasMark (cs : List Char) : Prop := ∃ mark ∈ decorations, mark.toList <:+: cs

instance (cs : List Char) : Decidable (Text.HasMark cs) :=
  inferInstanceAs (Decidable (∃ mark ∈ decorations, _))

def HasMark (s : String) : Prop := Text.HasMark s.toList

instance (s : String) : Decidable (HasMark s) := inferInstanceAs (Decidable (Text.HasMark _))

/-- No mark occurs in the text, nor does one when a blank follows it. -/
structure Plain (s : String) : Prop where
  unmarked : ¬ HasMark s
  ending : s.toList.getLast? ≠ some '🏛'

instance (s : String) : Decidable (Plain s) :=
  decidable_of_iff (¬ HasMark s ∧ s.toList.getLast? ≠ some '🏛')
    ⟨fun h => ⟨h.1, h.2⟩, fun h => ⟨h.unmarked, h.ending⟩⟩

/-- Whatever the text is put behind, no mark comes about. -/
structure Solid (s : String) : Prop extends Plain s where
  beginning : s.toList.head?.any (· != ' ') = true

instance (s : String) : Decidable (Solid s) :=
  decidable_of_iff (Plain s ∧ s.toList.head?.any (· != ' ') = true)
    ⟨fun h => ⟨h.1, h.2⟩, fun h => ⟨h.toPlain, h.beginning⟩⟩

/-! ### Where two texts meet -/

theorem toList_of_mem_decorations (mark : String) (h : mark ∈ decorations) :
    mark.toList = ['🏛', ' '] ∨ ∃ c, mark.toList = [c] := by
  simp only [decorations, List.mem_cons, List.not_mem_nil, or_false] at h
  rcases h with rfl | rfl | rfl
  · exact Or.inl rfl
  · exact Or.inr ⟨_, rfl⟩
  · exact Or.inr ⟨_, rfl⟩

theorem char_of_mark (mark : String) (hmark : mark ∈ decorations) (c : Char)
    (hc : c ∈ mark.toList) : c = '🏛' ∨ c = ' ' ∨ c = '·' ∨ c = '☆' := by
  simp only [decorations, List.mem_cons, List.not_mem_nil, or_false] at hmark
  rcases hmark with rfl | rfl | rfl
  · change c ∈ ['🏛', ' '] at hc
    rw [List.mem_cons, List.mem_singleton] at hc
    exact hc.imp_right Or.inl
  · change c ∈ ['·'] at hc
    exact Or.inr (Or.inr (Or.inl (List.mem_singleton.mp hc)))
  · change c ∈ ['☆'] at hc
    exact Or.inr (Or.inr (Or.inr (List.mem_singleton.mp hc)))

/-- A mark lies across the seam of two texts only if it is the one of two characters. -/
theorem eq_of_mark_split (mark : String) (hmark : mark ∈ decorations) (front back : List Char)
    (hsplit : mark.toList = front ++ back) :
    front = [] ∨ back = [] ∨ front = ['🏛'] ∧ back = [' '] := by
  cases front with
  | nil => exact Or.inl rfl
  | cons c front =>
    rcases toList_of_mem_decorations mark hmark with hpair | ⟨d, hsingle⟩
    · rw [hpair, List.cons_append, List.cons.injEq] at hsplit
      obtain ⟨rfl, hrest⟩ := hsplit
      cases front with
      | nil => exact Or.inr (Or.inr ⟨rfl, hrest.symm⟩)
      | cons d front =>
        rw [List.cons_append, List.cons.injEq] at hrest
        exact Or.inr (Or.inl (List.append_eq_nil_iff.mp hrest.2.symm).2)
    · rw [hsingle, List.cons_append, List.cons.injEq] at hsplit
      exact Or.inr (Or.inl (List.append_eq_nil_iff.mp hsplit.2.symm).2)

namespace Text

theorem hasMark_append_iff (a b : List Char) :
    HasMark (a ++ b) ↔
      HasMark a ∨ HasMark b ∨ a.getLast? = some '🏛' ∧ b.head? = some ' ' := by
  constructor
  · rintro ⟨mark, hmark, hwithin⟩
    rcases List.infix_append_iff.mp hwithin with ha | hb | ⟨front, back, hsplit, hfront, hback⟩
    · exact Or.inl ⟨mark, hmark, ha⟩
    · exact Or.inr (Or.inl ⟨mark, hmark, hb⟩)
    · rcases eq_of_mark_split mark hmark front back hsplit with rfl | rfl | ⟨rfl, rfl⟩
      · rw [List.nil_append] at hsplit
        exact Or.inr (Or.inl ⟨mark, hmark, hsplit ▸ hback.isInfix⟩)
      · rw [List.append_nil] at hsplit
        exact Or.inl ⟨mark, hmark, hsplit ▸ hfront.isInfix⟩
      · obtain ⟨front, rfl⟩ := hfront
        obtain ⟨back, rfl⟩ := hback
        exact Or.inr (Or.inr ⟨List.getLast?_concat, rfl⟩)
  · rintro (⟨mark, hmark, ha⟩ | ⟨mark, hmark, hb⟩ | ⟨hlast, hhead⟩)
    · exact ⟨mark, hmark, ha.trans (List.prefix_append a b).isInfix⟩
    · exact ⟨mark, hmark, hb.trans (List.suffix_append a b).isInfix⟩
    · obtain ⟨front, rfl⟩ := List.getLast?_eq_some_iff.mp hlast
      obtain ⟨back, rfl⟩ := List.head?_eq_some_iff.mp hhead
      exact ⟨Stage.libraryMark, List.mem_cons_self .., front, back, by simp [Stage.libraryMark]⟩

theorem hasMark_cons (c : Char) {cs : List Char} (h : HasMark cs) : HasMark (c :: cs) :=
  (hasMark_append_iff [c] cs).mpr (Or.inr (Or.inl h))

theorem hasMark_escaped (isSpecial : Char → Bool) (cs : List Char)
    (hplain : ∀ mark ∈ decorations, ∀ c ∈ mark.toList, isSpecial c = false) (h : HasMark cs) :
    HasMark (cs.flatMap fun c => if isSpecial c then ['\\', c] else [c]) := by
  obtain ⟨mark, hmark, front, back, rfl⟩ := h
  have hsame : (mark.toList.flatMap fun c => if isSpecial c then ['\\', c] else [c]) =
      mark.toList := by
    refine (List.flatMap_congr fun c hc => ?_).trans (List.flatMap_singleton' mark.toList)
    rw [hplain mark hmark c hc]
    rfl
  rw [List.flatMap_append, List.flatMap_append, hsame]
  exact ⟨mark, hmark, _, _, rfl⟩

theorem getLast?_escaped (isSpecial : Char → Bool) (cs : List Char) :
    (cs.flatMap fun c => if isSpecial c then ['\\', c] else [c]).getLast? = cs.getLast? := by
  rcases List.eq_nil_or_concat cs with rfl | ⟨front, c, rfl⟩
  · rfl
  · rw [List.concat_eq_append, List.flatMap_append, List.flatMap_singleton, List.getLast?_append,
      List.getLast?_concat]
    split <;> rfl

theorem hasMark_of_escaped (isSpecial : Char → Bool) (cs : List Char)
    (h : HasMark (cs.flatMap fun c => if isSpecial c then ['\\', c] else [c])) : HasMark cs := by
  induction cs with
  | nil =>
    have hnone : ¬ HasMark [] := by decide
    exact absurd h hnone
  | cons c cs ih =>
    rw [List.flatMap_cons, hasMark_append_iff] at h
    rcases h with hpiece | hrest | ⟨hlast, hhead⟩
    · refine (hasMark_append_iff [c] cs).mpr (Or.inl ?_)
      split at hpiece
      · rcases (hasMark_append_iff ['\\'] [c]).mp hpiece with hslash | hc | ⟨hslash, _⟩
        · exact absurd hslash (by decide)
        · exact hc
        · exact absurd hslash (by decide)
      · exact hpiece
    · exact hasMark_cons c (ih hrest)
    · refine (hasMark_append_iff [c] cs).mpr (Or.inr (Or.inr ⟨?_, ?_⟩))
      · split at hlast <;> exact hlast
      · cases cs with
        | nil => cases hhead
        | cons d cs =>
          rw [List.flatMap_cons] at hhead
          split at hhead
          · exact absurd hhead (by simp)
          · exact hhead

end Text

/-! ### Putting texts together -/

theorem hasMark_append_iff (a b : String) :
    HasMark (a ++ b) ↔
      HasMark a ∨ HasMark b ∨ a.toList.getLast? = some '🏛' ∧ b.toList.head? = some ' ' := by
  rw [HasMark, String.toList_append]
  exact Text.hasMark_append_iff a.toList b.toList

theorem unmarked_escapeWhere (isSpecial : Char → Bool) {text : String} (h : ¬ HasMark text) :
    ¬ HasMark (Snippet.escapeWhere isSpecial text) := by
  intro hmarked
  rw [HasMark, Snippet.escapeWhere, String.toList_ofList] at hmarked
  exact h (Text.hasMark_of_escaped isSpecial text.toList hmarked)

theorem unmarked_append {a b : String} (ha : Plain a) (hb : ¬ HasMark b) : ¬ HasMark (a ++ b) := by
  rw [hasMark_append_iff]
  rintro (hmarked | hmarked | ⟨hlast, _⟩)
  · exact ha.unmarked hmarked
  · exact hb hmarked
  · exact ha.ending hlast

theorem ending_append {a b : String} (ha : a.toList.getLast? ≠ some '🏛')
    (hb : b.toList.getLast? ≠ some '🏛') : (a ++ b).toList.getLast? ≠ some '🏛' := by
  rw [String.toList_append, List.getLast?_append]
  cases hlast : b.toList.getLast? with
  | none => exact ha
  | some c => exact fun h => hb (hlast.trans h)

theorem Plain.append {a b : String} (ha : Plain a) (hb : Plain b) : Plain (a ++ b) :=
  ⟨unmarked_append ha hb.unmarked, ending_append ha.ending hb.ending⟩

theorem Solid.after {a b : String} (hb : Solid b) (ha : ¬ HasMark a) : Plain (a ++ b) where
  unmarked := by
    rw [hasMark_append_iff]
    rintro (hmarked | hmarked | ⟨_, hhead⟩)
    · exact ha hmarked
    · exact hb.unmarked hmarked
    · have hblank := hb.beginning
      rw [hhead] at hblank
      cases hblank
  ending := by
    have hfirst := hb.beginning
    rw [String.toList_append, List.getLast?_append]
    cases hlast : b.toList.getLast? with
    | none =>
      rw [List.getLast?_eq_none_iff.mp hlast] at hfirst
      cases hfirst
    | some c => exact fun h => hb.ending (hlast.trans h)

theorem Plain.intercalate {sep : String} (hsep : Plain sep) (texts : List String)
    (h : ∀ text ∈ texts, Plain text) : Plain (sep.intercalate texts) := by
  induction texts with
  | nil =>
    rw [String.intercalate_nil]
    decide
  | cons text texts ih =>
    have htext := h text (List.mem_cons_self ..)
    have hrest := ih fun t ht => h t (List.mem_cons_of_mem _ ht)
    cases texts with
    | nil =>
      rw [String.intercalate_singleton]
      exact htext
    | cons next texts =>
      rw [String.intercalate_cons_cons]
      exact (htext.append hsep).append hrest

theorem Solid.unmarked_intercalate {sep : String} (hsep : Solid sep) (texts : List String)
    (h : ∀ text ∈ texts, ¬ HasMark text) : ¬ HasMark (sep.intercalate texts) := by
  induction texts with
  | nil =>
    rw [String.intercalate_nil]
    decide
  | cons text texts ih =>
    have htext := h text (List.mem_cons_self ..)
    have hrest := ih fun t ht => h t (List.mem_cons_of_mem _ ht)
    cases texts with
    | nil =>
      rw [String.intercalate_singleton]
      exact htext
    | cons next texts =>
      rw [String.intercalate_cons_cons]
      exact unmarked_append (hsep.after htext) hrest

/-! ### Snippets -/

namespace Snippet

theorem hasMark_escape_iff (text : String) : HasMark (escape text) ↔ HasMark text := by
  refine ⟨not_imp_not.mp fun h => unmarked_escapeWhere _ h, fun h => ?_⟩
  rw [HasMark, escape, escapeWhere, String.toList_ofList]
  refine Text.hasMark_escaped _ _ (fun mark hmark c hc => ?_) h
  rcases char_of_mark mark hmark c hc with rfl | rfl | rfl | rfl <;> rfl

theorem getLast?_escape (text : String) :
    (escape text).toList.getLast? = text.toList.getLast? := by
  rw [escape, escapeWhere, String.toList_ofList]
  exact Text.getLast?_escaped _ _

theorem plain_toString (n : Nat) : Plain (toString n) := by
  have hdigit (c : Char) (hc : c ∈ (toString n).toList) : c.isDigit = true :=
    Nat.isDigit_of_mem_toDigits (by decide) (by decide) (Nat.toList_repr ▸ hc)
  constructor
  · rintro ⟨mark, hmark, hwithin⟩
    obtain ⟨c, hc⟩ : ∃ c, c ∈ mark.toList := by
      rcases toList_of_mem_decorations mark hmark with hpair | ⟨c, hsingle⟩
      · exact ⟨'🏛', hpair ▸ List.mem_cons_self ..⟩
      · exact ⟨c, hsingle ▸ List.mem_singleton_self c⟩
    have hnot : c.isDigit = false := by
      rcases char_of_mark mark hmark c hc with rfl | rfl | rfl | rfl <;> rfl
    rw [hdigit c (hwithin.subset hc)] at hnot
    cases hnot
  · intro hlast
    exact absurd (hdigit _ (List.mem_of_getLast? hlast)) (by decide)

theorem plain_placeholder (index : Nat) {text : String} (h : ¬ HasMark text) :
    Plain (placeholder index text) := by
  unfold placeholder
  have hclose : Solid "\x7d" := by decide
  refine hclose.after (unmarked_append ?_ (unmarked_escapeWhere _ h))
  have hopen : Plain "$\x7b" := by decide
  have hcolon : Plain ":" := by decide
  exact (hopen.append (plain_toString index)).append hcolon

theorem plain_placeholders (texts : List String) (h : ∀ text ∈ texts, ¬ HasMark text) :
    Plain (placeholders texts) := by
  have hsep : Plain ", " := by decide
  refine hsep.intercalate _ fun piece hpiece => ?_
  obtain ⟨i, hi, rfl⟩ := List.mem_mapIdx.mp hpiece
  exact plain_placeholder _ (h _ (List.getElem_mem hi))

theorem plain_choice (index : Nat) (options : List String) (h : ∀ text ∈ options, ¬ HasMark text) :
    Plain (choice index options) := by
  unfold choice
  have hclose : Solid "|\x7d" := by decide
  have hcomma : Solid "," := by decide
  refine hclose.after (unmarked_append ?_ (hcomma.unmarked_intercalate _ fun piece hpiece => ?_))
  · have hopen : Plain "$\x7b" := by decide
    have hbar : Plain "|" := by decide
    exact (hopen.append (plain_toString index)).append hbar
  · obtain ⟨text, htext, rfl⟩ := List.mem_map.mp hpiece
    exact unmarked_escapeWhere _ (h text htext)

end Snippet

end CodeCompletion
