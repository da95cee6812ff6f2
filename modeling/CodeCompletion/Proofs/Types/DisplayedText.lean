import CodeCompletion.Proofs.Text.Nesting
import CodeCompletion.Text.Alphanumeric
import CodeCompletion.Types.Display

/-!
# The shape of displayed types

The types that a user most often reads are put together of primitive types, arrays, promises,
functions and unions. In their texts all brackets match, commas and colons stand in brackets only,
and so do bars in the text of anything but a union or a function.
-/

namespace CodeCompletion

open Text

namespace Ty

/-! ### Types of five forms -/

/-- Names of parameters as they are written in code. Of ASCII they have letters, digits, the low
line and the dollar sign only. -/
structure IsIdentifier (name : String) : Prop where
  nonempty : name.toList ≠ []
  ascii : ∀ c ∈ name.toList, c.toNat < 0x80 → isIdentifierChar c = true

/-- Types of primitive types, arrays, promises, functions, and unions of several members that are
not unions themselves. -/
inductive IsSimple : Ty → Prop where
  | primitive (p : Primitive) : IsSimple (.primitive p)
  | array {element : Ty} (h : IsSimple element) : IsSimple (.array element)
  | promise {inner : Ty} (h : IsSimple inner) : IsSimple (.promise inner)
  | function {params : List Param} {ret : Ty} (names : ∀ p ∈ params, IsIdentifier p.name)
    (types : ∀ p ∈ params, IsSimple p.ty) (result : IsSimple ret) : IsSimple (function params ret)
  | union {ms : List Ty} (several : 2 ≤ ms.length) (members : ∀ m ∈ ms, IsSimple m)
    (flat : ∀ m ∈ ms, m.isUnion = false) : IsSimple (.union ms)

/-! ### Texts as characters -/

def shown (t : Ty) : List Char := t.display.toList

def shownHead (p : Param) : List Char :=
  (if p.rest then ['.', '.', '.'] else []) ++ p.name.toList ++ (if p.optional then ['?'] else [])

def shownParam (p : Param) : List Char := shownHead p ++ ':' :: ' ' :: p.ty.shown

def shownParams (params : List Param) : List Char :=
  [',', ' '].intercalate (params.map shownParam)

def shownMembers (ms : List Ty) : List Char := [' ', '|', ' '].intercalate (ms.map shown)

def shownElement (t : Ty) : List Char :=
  if t.needsBrackets then '(' :: (t.shown ++ [')']) else t.shown

theorem displayMembers_eq (ms : List Ty) : displayMembers ms = ms.map display := by
  induction ms with
  | nil => rfl
  | cons m ms ih =>
    show display m :: displayMembers ms = _
    rw [ih, List.map_cons]

theorem displayParams_eq (ps : List Param) : displayParams ps = ps.map ParamOf.display := by
  induction ps with
  | nil => rfl
  | cons p ps ih =>
    obtain ⟨name, ty, optional, rest⟩ := p
    show (paramHead name optional rest ++ display ty) :: displayParams ps = _
    rw [ih, List.map_cons]
    rfl

theorem toList_displayParam (p : Param) : (ParamOf.display p).toList = shownParam p := by
  obtain ⟨name, ty, optional, rest⟩ := p
  cases optional <;> cases rest <;>
    simp [ParamOf.display, paramHead, shownParam, shownHead, shown]

theorem shown_primitive (p : Primitive) : (Ty.primitive p).shown = p.name.toList := rfl

theorem shown_array (e : Ty) : (Ty.array e).shown = e.shownElement ++ ['[', ']'] := by
  show (if e.needsBrackets then "(" ++ display e ++ ")[]" else display e ++ "[]").toList = _
  rw [shownElement]
  split <;> simp [shown]

theorem shown_promise (t : Ty) :
    (Ty.promise t).shown = ['P', 'r', 'o', 'm', 'i', 's', 'e'] ++ '<' :: (t.shown ++ ['>']) := by
  show ("Promise<" ++ display t ++ ">").toList = _
  simp [shown]

theorem shown_function (params : List Param) (ret : Ty) :
    (function params ret).shown =
      '(' :: (shownParams params ++ ')' :: ' ' :: '=' :: '>' :: ' ' :: ret.shown) := by
  show ("(" ++ ", ".intercalate (displayParams params) ++ ") => " ++ display ret).toList = _
  rw [displayParams_eq]
  simp [shown, shownParams, String.toList_intercalate, Function.comp_def, toList_displayParam]

theorem shown_union (ms : List Ty) : (Ty.union ms).shown = shownMembers ms := by
  show (" | ".intercalate (displayMembers ms)).toList = _
  rw [displayMembers_eq, String.toList_intercalate, List.map_map]
  rfl

/-! ### Brackets and stops -/

/-- The characters between names. -/
def marks : List Char := ['(', ')', '<', '>', '[', ']', '=', '|', ',', ':', '.', '?']

theorem IsIdentifier.not_mem_marks {name : String} (h : IsIdentifier name) :
    ∀ c ∈ name.toList, c ∉ marks := by
  have hmarks : marks.all (fun m => m.toNat < 0x80 && !isIdentifierChar m) = true := by decide
  intro c hc hmem
  have hmark := List.all_eq_true.mp hmarks c hmem
  rw [Bool.and_eq_true, decide_eq_true_eq, Bool.not_eq_true'] at hmark
  rw [h.ascii c hc hmark.1] at hmark
  cases hmark.2

theorem not_mem_marks_of_primitive (p : Primitive) : ∀ c ∈ p.name.toList, c ∉ marks := by
  have hname : p.name.toList.all (!marks.contains ·) = true := by cases p <;> decide
  intro c hc hmem
  have hnot := List.all_eq_true.mp hname c hc
  rw [List.contains_iff_mem.mpr hmem] at hnot
  cases hnot

theorem ordinary_of_not_mem_marks {stops : List Char} (hstops : stops ⊆ marks) {c : Char}
    (h : c ∉ marks) : Ordinary stops c := by
  refine ⟨?_, ?_, fun hmem => h (hstops hmem)⟩
  · by_contra hopens
    simp only [opens, Bool.not_eq_false, Bool.or_eq_true, beq_iff_eq] at hopens
    rcases hopens with (rfl | rfl) | rfl <;> exact h (by decide)
  · by_contra hcloses
    simp only [closes, Bool.not_eq_false, Bool.or_eq_true, beq_iff_eq] at hcloses
    rcases hcloses with rfl | rfl <;> exact h (by decide)

theorem nested_primitive {stops : List Char} (hstops : stops ⊆ marks) (p : Primitive) :
    Nested stops (Ty.primitive p).shown := by
  rw [shown_primitive]
  exact .ofOrdinary fun c hc => ordinary_of_not_mem_marks hstops (not_mem_marks_of_primitive p c hc)

theorem IsIdentifier.nested {stops : List Char} (hstops : stops ⊆ marks) {name : String}
    (h : IsIdentifier name) : Nested stops name.toList :=
  .ofOrdinary fun c hc => ordinary_of_not_mem_marks hstops (h.not_mem_marks c hc)

theorem nested_shownHead (p : Param) (h : IsIdentifier p.name) :
    Nested [',', ':'] (shownHead p) := by
  have hname : Nested [',', ':'] p.name.toList := h.nested (by decide)
  have hdots : Nested [',', ':'] (if p.rest then ['.', '.', '.'] else []) := by
    cases p.rest <;> decide
  have hquestion : Nested [',', ':'] (if p.optional then ['?'] else []) := by
    cases p.optional <;> decide
  exact (hdots.append hname).append hquestion

theorem nested_shownParam (p : Param) (h : IsIdentifier p.name)
    (hty : Nested [',', ':'] p.ty.shown) : Nested [','] (shownParam p) := by
  have hhead : Nested [','] (shownHead p) := (nested_shownHead p h).mono (by decide)
  have hcolon : Nested [','] [':', ' '] := by decide
  exact hhead.append (hcolon.append (hty.mono (by decide)))

theorem nested_shownParams (params : List Param) (hnames : ∀ p ∈ params, IsIdentifier p.name)
    (htypes : ∀ p ∈ params, Nested [',', ':'] p.ty.shown) : Nested [] (shownParams params) := by
  have hcomma : Nested [] [',', ' '] := by decide
  refine hcomma.intercalate _ fun part hpart => ?_
  obtain ⟨p, hp, rfl⟩ := List.mem_map.mp hpart
  exact (nested_shownParam p (hnames p hp) (htypes p hp)).mono (List.nil_subset _)

theorem nested_brackets {stops : List Char} (stops' : List Char) {s : List Char}
    (h : Nested stops s) : Nested stops' ('(' :: (s ++ [')'])) :=
  h.bracketed stops' rfl rfl

/-- In the text of a type commas and colons stand in brackets only. -/
theorem IsSimple.nested {t : Ty} (h : t.IsSimple) : Nested [',', ':'] t.shown := by
  induction h with
  | primitive p => exact nested_primitive (by decide) p
  | @array e _ ih =>
    have hbare : Nested [',', ':'] ['[', ']'] := by decide
    rw [shown_array, shownElement]
    split
    · exact (nested_brackets _ ih).append hbare
    · exact ih.append hbare
  | @promise t _ ih =>
    have hname : Nested [',', ':'] ['P', 'r', 'o', 'm', 'i', 's', 'e'] := by decide
    rw [shown_promise]
    exact hname.append (ih.bracketed _ rfl rfl)
  | @function params ret names _ _ ihtypes ihresult =>
    have harrow : Nested [',', ':'] [' ', '=', '>', ' '] := by decide
    have hparams := nested_brackets [',', ':'] (nested_shownParams params names ihtypes)
    rw [shown_function, List.append_cons]
    exact hparams.append (harrow.append ihresult)
  | @union ms _ _ _ ih =>
    have hbar : Nested [',', ':'] [' ', '|', ' '] := by decide
    rw [shown_union]
    refine hbar.intercalate _ fun part hpart => ?_
    obtain ⟨m, hm, rfl⟩ := List.mem_map.mp hpart
    exact ih m hm

theorem IsSimple.nested_params {params : List Param} {ret : Ty}
    (h : (Ty.function params ret).IsSimple) : Nested [] (shownParams params) := by
  cases h with
  | function names types result =>
    exact nested_shownParams params names fun p hp => (types p hp).nested

/-- In the text of a type that is neither a union nor a function bars stand in brackets, too. -/
theorem IsSimple.nested_of_atom {t : Ty} (h : t.IsSimple) (hatom : t.needsBrackets = false) :
    Nested ['|', ',', ':'] t.shown := by
  induction h with
  | primitive p => exact nested_primitive (by decide) p
  | @array e helement ih =>
    have hbare : Nested ['|', ',', ':'] ['[', ']'] := by decide
    rw [shown_array, shownElement]
    split
    · exact (nested_brackets _ helement.nested).append hbare
    · rename_i hbrackets
      exact (ih (Bool.eq_false_iff.mpr hbrackets)).append hbare
  | @promise t hinner _ =>
    have hname : Nested ['|', ',', ':'] ['P', 'r', 'o', 'm', 'i', 's', 'e'] := by decide
    rw [shown_promise]
    exact hname.append (hinner.nested.bracketed _ rfl rfl)
  | function => cases hatom
  | union => cases hatom

/-! ### Where texts start and end -/

theorem IsSimple.start_of_atom {t : Ty} (h : t.IsSimple) (hatom : t.needsBrackets = false) :
    (∃ c s, t.shown = c :: s ∧ c ≠ '(') ∨
      ∃ inside s, Nested [] inside ∧ t.shown = '(' :: (inside ++ ')' :: '[' :: s) := by
  induction h with
  | primitive p => cases p <;> exact Or.inl ⟨_, _, rfl, by decide⟩
  | @array e helement ih =>
    rw [shown_array, shownElement]
    split
    · refine Or.inr ⟨e.shown, [']'], helement.nested.mono (List.nil_subset _), ?_⟩
      simp
    · rename_i hbrackets
      rcases ih (Bool.eq_false_iff.mpr hbrackets) with
        ⟨c, s, heq, hc⟩ | ⟨inside, s, hinside, heq⟩
      · exact Or.inl ⟨c, s ++ ['[', ']'], by rw [heq, List.cons_append], hc⟩
      · exact Or.inr ⟨inside, s ++ ['[', ']'], hinside, by simp [heq]⟩
  | promise => exact Or.inl ⟨_, _, shown_promise _, by decide⟩
  | function => cases hatom
  | union => cases hatom

theorem IsSimple.ne_function_of_atom {t : Ty} (h : t.IsSimple) (hatom : t.needsBrackets = false)
    {params : List Char} (hparams : Nested [] params) (s s' : List Char) :
    t.shown ++ s ≠ '(' :: (params ++ ')' :: ' ' :: s') := by
  intro heq
  rcases h.start_of_atom hatom with ⟨c, front, hstart, hc⟩ | ⟨inside, front, hinside, hstart⟩
  · rw [hstart, List.cons_append] at heq
    exact hc (List.cons.inj heq).1
  · rw [hstart, List.cons_append, List.append_assoc] at heq
    obtain ⟨-, hrest⟩ :=
      split_unique hinside hparams (.cons rfl _) (.cons rfl _) (List.cons.inj heq).2
    exact absurd (List.cons.inj (List.cons.inj hrest).2).1 (by decide)

theorem getLast?_shown_array (e : Ty) : (Ty.array e).shown.getLast? = some ']' := by
  rw [shown_array, List.getLast?_append]
  rfl

theorem getLast?_shown_promise (t : Ty) : (Ty.promise t).shown.getLast? = some '>' := by
  rw [shown_promise, ← List.cons_append, ← List.append_assoc, List.getLast?_append]
  rfl

theorem IsSimple.getLast?_of_atom {t : Ty} (h : t.IsSimple) (hatom : t.needsBrackets = false) :
    t.shown.getLast? ≠ some ')' := by
  cases h with
  | primitive p =>
    intro hlast
    rw [shown_primitive] at hlast
    exact not_mem_marks_of_primitive p _ (List.mem_of_getLast? hlast) (by decide)
  | array =>
    rw [getLast?_shown_array]
    decide
  | promise =>
    rw [getLast?_shown_promise]
    decide
  | function => cases hatom
  | union => cases hatom

/-! ### Parameters -/

theorem IsIdentifier.ne_dot {name : String} (h : IsIdentifier name) (s s' : List Char) :
    name.toList ++ s ≠ '.' :: s' := by
  obtain ⟨c, rest, hname⟩ := List.exists_cons_of_ne_nil h.nonempty
  intro heq
  have hc : c ∈ name.toList := by
    rw [hname]
    exact List.mem_cons_self ..
  rw [hname, List.cons_append] at heq
  refine h.not_mem_marks c hc ?_
  rw [(List.cons.inj heq).1]
  decide

theorem question_inj {name name' : String} (h : IsIdentifier name) (h' : IsIdentifier name')
    {optional optional' : Bool} (heq : name.toList ++ (if optional then ['?'] else []) =
      name'.toList ++ (if optional' then ['?'] else [])) :
    name = name' ∧ optional = optional' := by
  have hstopped (b : Bool) : Stopped ['?'] (if b then ['?'] else []) := by
    cases b with
    | false => exact nofun
    | true => exact .cons rfl []
  obtain ⟨hname, hquestion⟩ := split_unique (h.nested (by decide)) (h'.nested (by decide))
    (hstopped optional) (hstopped optional') heq
  refine ⟨String.toList_inj.mp hname, ?_⟩
  cases optional <;> cases optional' <;> first | rfl | cases hquestion

theorem shownHead_inj {p q : Param} (hp : IsIdentifier p.name) (hq : IsIdentifier q.name)
    (h : shownHead p = shownHead q) :
    (p.name = q.name ∧ p.optional = q.optional) ∧ p.rest = q.rest := by
  unfold shownHead at h
  rw [List.append_assoc, List.append_assoc] at h
  cases hpr : p.rest <;> cases hqr : q.rest <;> rw [hpr, hqr] at h
  · exact ⟨question_inj hp hq h, rfl⟩
  · exact absurd h (hp.ne_dot _ _)
  · exact absurd h.symm (hq.ne_dot _ _)
  · exact ⟨question_inj hp hq (List.append_cancel_left h), rfl⟩

theorem shownParam_inj {p q : Param} (hp : IsIdentifier p.name) (hq : IsIdentifier q.name)
    (h : shownParam p = shownParam q) :
    ((p.name = q.name ∧ p.optional = q.optional) ∧ p.rest = q.rest) ∧
      p.ty.shown = q.ty.shown := by
  have hnested (p : Param) (hp : IsIdentifier p.name) : Nested [':'] (shownHead p) :=
    (nested_shownHead p hp).mono (by decide)
  obtain ⟨hhead, hty⟩ :=
    split_unique (hnested p hp) (hnested q hq) (.cons rfl _) (.cons rfl _) h
  exact ⟨shownHead_inj hp hq hhead, (List.cons.inj (List.cons.inj hty).2).2⟩

theorem shownParams_inj (ps qs : List Param)
    (hps : ∀ p ∈ ps, IsIdentifier p.name ∧ p.ty.IsSimple)
    (hqs : ∀ q ∈ qs, IsIdentifier q.name ∧ q.ty.IsSimple)
    (hsame : ∀ p ∈ ps, ∀ q ∈ qs, p.ty.shown = q.ty.shown → p.ty = q.ty)
    (h : shownParams ps = shownParams qs) : ps = qs := by
  have hparts (ps : List Param) (hps : ∀ p ∈ ps, IsIdentifier p.name ∧ p.ty.IsSimple) :
      ∀ part ∈ ps.map shownParam, part ≠ [] ∧ Nested [','] part := by
    intro part hpart
    obtain ⟨p, hp, rfl⟩ := List.mem_map.mp hpart
    refine ⟨List.append_ne_nil_of_right_ne_nil _ (List.cons_ne_nil _ _), ?_⟩
    exact nested_shownParam p (hps p hp).1 (hps p hp).2.nested
  have htexts : ps.map shownParam = qs.map shownParam :=
    intercalate_inj rfl [' '] _ _ (hparts ps hps) (hparts qs hqs) h
  clear h hparts
  induction ps generalizing qs with
  | nil => exact (List.map_eq_nil_iff.mp htexts.symm).symm
  | cons p ps ih =>
    cases qs with
    | nil => cases htexts
    | cons q qs =>
      obtain ⟨hp, hps⟩ := List.forall_mem_cons.mp hps
      obtain ⟨hq, hqs⟩ := List.forall_mem_cons.mp hqs
      obtain ⟨hfirst, hrest⟩ := List.cons.inj htexts
      obtain ⟨⟨⟨hname, hoptional⟩, hdots⟩, hshown⟩ := shownParam_inj hp.1 hq.1 hfirst
      have hty := hsame p (List.mem_cons_self ..) q (List.mem_cons_self ..) hshown
      have htail := ih qs hps hqs (fun p hp q hq => hsame p (List.mem_cons_of_mem _ hp) q
        (List.mem_cons_of_mem _ hq)) hrest
      obtain ⟨_, _, _, _⟩ := p
      cases hname
      cases hoptional
      cases hdots
      cases hty
      rw [htail]

end Ty

end CodeCompletion
