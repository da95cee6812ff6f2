import CodeCompletion.Proofs.Types.DisplayedText

/-!
# Types that can be told by their texts

Only an array puts brackets around a union or a function. So a bar behind the arrow of a function
is read in two ways: as part of its result, or as the end of the function. A type is told by its
text exactly if it has no such place, that is, if no function in it returns a union, and in each
union only the last member may be a function.
-/

namespace CodeCompletion

open Text

namespace Ty

/-- Types without a bar behind the arrow of a function, unless brackets keep them apart. -/
inductive IsClear : Ty → Prop where
  | primitive (p : Primitive) : IsClear (.primitive p)
  | array {element : Ty} (h : IsClear element) : IsClear (.array element)
  | promise {inner : Ty} (h : IsClear inner) : IsClear (.promise inner)
  | function {params : List Param} {ret : Ty} (types : ∀ p ∈ params, IsClear p.ty)
    (result : IsClear ret) (single : ret.isUnion = false) : IsClear (function params ret)
  | union {ms : List Ty} (members : ∀ m ∈ ms, IsClear m)
    (front : ∀ m ∈ ms.dropLast, m.isCallable = false) : IsClear (.union ms)

theorem shown_eq_iff (t u : Ty) : t.shown = u.shown ↔ t.display = u.display := String.toList_inj

theorem IsSimple.needsBrackets {t : Ty} (h : t.IsSimple) (hunion : t.isUnion = false)
    (hfunction : t.isCallable = false) : t.needsBrackets = false := by
  cases h with
  | primitive => rfl
  | array => rfl
  | promise => rfl
  | function => cases hfunction
  | union => cases hunion

/-! ### Bars -/

/-- A clear type that is not a union has no bars outside of brackets. -/
theorem IsSimple.nested_of_clear {t : Ty} (h : t.IsSimple) (hclear : t.IsClear)
    (hunion : t.isUnion = false) : Nested ['|', ',', ':'] t.shown := by
  induction hclear with
  | primitive => exact h.nested_of_atom rfl
  | array => exact h.nested_of_atom rfl
  | promise => exact h.nested_of_atom rfl
  | @function params ret _ _ hsingle _ ih =>
    have harrow : Nested ['|', ',', ':'] [' ', '=', '>', ' '] := by decide
    have hparams := nested_brackets ['|', ',', ':'] h.nested_params
    cases h with
    | function names types result =>
      rw [shown_function, List.append_cons]
      exact hparams.append (harrow.append (ih result hsingle))
  | union => cases hunion

theorem IsSimple.not_nested_bar {t : Ty} (h : t.IsSimple) (s : List Char) :
    ¬ Nested ['|', ',', ':'] (t.shown ++ ' ' :: '|' :: s) := by
  intro hnested
  obtain ⟨-, hrest⟩ := Nested.of_append (by decide) hnested h.nested
  have hspace : Nested ['|', ',', ':'] [' '] := by decide
  obtain ⟨-, hbar⟩ := Nested.of_append (b := '|' :: s) (List.Subset.refl _) hrest hspace
  exact not_nested_of_stopped rfl hbar

theorem shownMembers_cons_cons (m next : Ty) (ms : List Ty) :
    shownMembers (m :: next :: ms) = m.shown ++ ' ' :: '|' :: ' ' :: shownMembers (next :: ms) := by
  rw [shownMembers, List.map_cons, List.map_cons, List.intercalate_cons_cons]
  simp [shownMembers]

theorem IsSimple.isUnion_of_nested {t : Ty} (h : t.IsSimple)
    (hnested : Nested ['|', ',', ':'] t.shown) : t.isUnion = false := by
  cases h with
  | @union ms several members _ =>
    match ms, several with
    | m :: next :: ms, _ =>
      rw [shown_union, shownMembers_cons_cons] at hnested
      exact absurd hnested ((members m (List.mem_cons_self ..)).not_nested_bar _)
  | _ => rfl

theorem IsSimple.needsBrackets_of_followed {m n : Ty} (hm : m.IsSimple) (hn : n.IsSimple)
    (hatom : m.needsBrackets = false) (hunion : n.isUnion = false) (s s' : List Char)
    (h : n.shown ++ s = m.shown ++ s') : n.needsBrackets = false := by
  cases hn with
  | @function params ret names types result =>
    have hparams := (IsSimple.function names types result).nested_params
    refine absurd ?_ (hm.ne_function_of_atom hatom hparams s'
      ('=' :: '>' :: ' ' :: (ret.shown ++ s)))
    rw [← h, shown_function]
    simp
  | union => cases hunion
  | _ => rfl

/-! ### Types of the same text -/

theorem name_inj {p q : Primitive} (h : p.name.toList = q.name.toList) : p = q := by
  cases p <;> cases q <;> first | rfl | exact absurd h (by decide)

section Same

variable {t u : Ty} (hu : u.IsSimple)

include hu

theorem IsSimple.eq_primitive {p : Primitive} (h : u.shown = p.name.toList) : u = .primitive p := by
  have hmarks : ∀ c ∈ u.shown, c ∉ marks := h ▸ not_mem_marks_of_primitive p
  cases hu with
  | primitive q =>
    rw [shown_primitive] at h
    rw [name_inj h]
  | array =>
    refine absurd ?_ (hmarks ']' ?_)
    · decide
    · rw [shown_array]
      simp
  | promise =>
    refine absurd ?_ (hmarks '>' ?_)
    · decide
    · rw [shown_promise]
      simp
  | function =>
    refine absurd ?_ (hmarks '(' ?_)
    · decide
    · rw [shown_function]
      exact List.mem_cons_self ..
  | union several members flat =>
    have hnested : Nested ['|', ',', ':'] (Ty.union _).shown := .ofOrdinary fun c hc =>
      ordinary_of_not_mem_marks (by decide) (hmarks c hc)
    cases (IsSimple.union several members flat).isUnion_of_nested hnested

theorem IsSimple.needsBrackets_of_shown_eq (h : t.IsSimple) (hatom : t.needsBrackets = false)
    (heq : u.shown = t.shown) : u.needsBrackets = false := by
  have hunion := hu.isUnion_of_nested (heq ▸ h.nested_of_atom hatom)
  exact h.needsBrackets_of_followed hu hatom hunion [] [] (by rw [heq])

theorem IsSimple.shown_eq_of_shownElement (h : t.IsSimple)
    (heq : u.shownElement = t.shownElement) : u.shown = t.shown := by
  have hlast (s : List Char) : ('(' :: (s ++ [')'])).getLast? = some ')' := by
    rw [← List.cons_append, List.getLast?_append]
    rfl
  unfold shownElement at heq
  cases hub : u.needsBrackets <;> cases htb : t.needsBrackets <;>
    simp only [hub, htb, Bool.false_eq_true, ↓reduceIte] at heq
  · exact heq
  · exact absurd (heq ▸ hlast t.shown) (hu.getLast?_of_atom hub)
  · exact absurd (heq ▸ hlast u.shown) (h.getLast?_of_atom htb)
  · exact List.append_cancel_right (List.cons.inj heq).2

theorem IsSimple.eq_array {e : Ty} (he : e.IsSimple)
    (hsame : ∀ {u : Ty}, u.IsSimple → u.shown = e.shown → u = e)
    (h : u.shown = (Ty.array e).shown) : u = .array e := by
  have hatom := hu.needsBrackets_of_shown_eq he.array rfl h
  have hlast : u.shown.getLast? = some ']' := h ▸ getLast?_shown_array e
  cases hu with
  | primitive q =>
    refine absurd (not_mem_marks_of_primitive q ']' ?_) (by decide)
    exact List.mem_of_getLast? hlast
  | array he' =>
    rw [shown_array, shown_array] at h
    rw [hsame he' (he'.shown_eq_of_shownElement he (List.append_cancel_right h))]
  | promise =>
    rw [getLast?_shown_promise] at hlast
    cases hlast
  | function => cases hatom
  | union => cases hatom

theorem IsSimple.eq_promise {v : Ty} (hv : v.IsSimple)
    (hsame : ∀ {u : Ty}, u.IsSimple → u.shown = v.shown → u = v)
    (h : u.shown = (Ty.promise v).shown) : u = .promise v := by
  have hatom := hu.needsBrackets_of_shown_eq hv.promise rfl h
  have hlast : u.shown.getLast? = some '>' := h ▸ getLast?_shown_promise v
  cases hu with
  | primitive q =>
    refine absurd (not_mem_marks_of_primitive q '>' ?_) (by decide)
    exact List.mem_of_getLast? hlast
  | array =>
    rw [getLast?_shown_array] at hlast
    cases hlast
  | promise hu' =>
    rw [shown_promise, shown_promise] at h
    rw [hsame hu' (List.append_cancel_right (List.cons.inj (List.append_cancel_left h)).2)]
  | function => cases hatom
  | union => cases hatom

theorem IsSimple.eq_function {params : List Param} {ret : Ty}
    (h : (Ty.function params ret).IsSimple) (hclear : (Ty.function params ret).IsClear)
    (hparams : ∀ p ∈ params, ∀ {u : Ty}, u.IsSimple → u.shown = p.ty.shown → u = p.ty)
    (hret : ∀ {u : Ty}, u.IsSimple → u.shown = ret.shown → u = ret)
    (heq : u.shown = (Ty.function params ret).shown) : u = Ty.function params ret := by
  have hunion := hu.isUnion_of_nested (heq ▸ h.nested_of_clear hclear rfl)
  by_cases hatom : u.needsBrackets = true
  · have hnested := h.nested_params
    cases h with
    | function names types result =>
      cases hu with
      | function names' types' result' =>
        have hnested' := (IsSimple.function names' types' result').nested_params
        rw [shown_function, shown_function] at heq
        obtain ⟨hps, hrest⟩ := split_unique hnested' hnested (.cons rfl _) (.cons rfl _)
          (List.cons.inj heq).2
        have hparams := shownParams_inj _ _ (fun p hp => ⟨names' p hp, types' p hp⟩)
          (fun p hp => ⟨names p hp, types p hp⟩)
          (fun q hq p hp hty => hparams p hp (types' q hq) hty) hps
        have hshown := @List.append_cancel_left _ [')', ' ', '=', '>', ' '] _ _ hrest
        rw [hparams, hret result' hshown]
      | union => cases hunion
      | _ => cases hatom
  · have hfunction := h.needsBrackets_of_shown_eq hu (Bool.eq_false_iff.mpr hatom) heq.symm
    cases hfunction

end Same

/-! ### Members -/

theorem shownMembers_singleton (t : Ty) : shownMembers [t] = t.shown := by
  rw [shownMembers, List.map_singleton, List.intercalate_singleton]

theorem shownMembers_members (t : Ty) : shownMembers t.members = t.shown := by
  cases t with
  | union ms => exact (shown_union ms).symm
  | _ => exact shownMembers_singleton _

theorem IsSimple.of_mem_members {t : Ty} (h : t.IsSimple) :
    ∀ m ∈ t.members, m.IsSimple ∧ m.isUnion = false := by
  cases h with
  | union several members flat => exact fun m hm => ⟨members m hm, flat m hm⟩
  | _ =>
    intro m hm
    cases List.mem_singleton.mp hm
    constructor
    · constructor <;> assumption
    · rfl

theorem IsSimple.members_ne_nil {t : Ty} (h : t.IsSimple) : t.members ≠ [] := by
  cases h with
  | union several => exact List.ne_nil_of_length_pos (Nat.lt_of_lt_of_le (by decide) several)
  | _ => exact List.cons_ne_nil _ _

theorem IsSimple.eq_of_members {t m : Ty} (h : t.IsSimple) (hmembers : t.members = [m]) :
    t = m := by
  cases h with
  | @union ms several =>
    change ms = [m] at hmembers
    rw [hmembers] at several
    exact absurd several (Nat.not_le.mpr (Nat.lt_succ_self 1))
  | _ => exact (List.cons.inj hmembers).1

theorem IsSimple.first_member_inj {m n : Ty} (hm : m.IsSimple) (hn : n.IsSimple)
    (hatom : m.needsBrackets = false) (hatom' : n.needsBrackets = false) {s s' : List Char}
    (h : n.shown ++ ' ' :: '|' :: s = m.shown ++ ' ' :: '|' :: s') :
    n.shown = m.shown ∧ s = s' := by
  have hspace : Nested ['|', ',', ':'] [' '] := by decide
  rw [List.append_cons, List.append_cons m.shown] at h
  obtain ⟨hfirst, hrest⟩ := split_unique ((hn.nested_of_atom hatom').append hspace)
    ((hm.nested_of_atom hatom).append hspace) (.cons rfl _) (.cons rfl _) h
  exact ⟨List.append_cancel_right hfirst, (List.cons.inj hrest).2⟩

theorem shownMembers_inj (ms ns : List Ty) (hne : ms ≠ []) (hne' : ns ≠ [])
    (hms : ∀ m ∈ ms, m.IsSimple ∧ m.isUnion = false)
    (hns : ∀ n ∈ ns, n.IsSimple ∧ n.isUnion = false) (hclear : ∀ m ∈ ms, m.IsClear)
    (hfront : ∀ m ∈ ms.dropLast, m.isCallable = false)
    (hsame : ∀ m ∈ ms, ∀ {u : Ty}, u.IsSimple → u.shown = m.shown → u = m)
    (h : shownMembers ns = shownMembers ms) : ns = ms := by
  induction ms generalizing ns with
  | nil => exact absurd rfl hne
  | cons m ms ih =>
    obtain ⟨hm, hms⟩ := List.forall_mem_cons.mp hms
    cases ns with
    | nil => exact absurd rfl hne'
    | cons n ns =>
      obtain ⟨hn, hns⟩ := List.forall_mem_cons.mp hns
      cases ms with
      | nil =>
        rw [shownMembers_singleton] at h
        cases ns with
        | nil =>
          rw [shownMembers_singleton] at h
          rw [hsame m (List.mem_cons_self ..) hn.1 h]
        | cons n' ns =>
          -- a clear last member has no bar that could end it
          rw [shownMembers_cons_cons] at h
          refine absurd ?_ (hn.1.not_nested_bar (' ' :: shownMembers (n' :: ns)))
          exact h ▸ hm.1.nested_of_clear (hclear m (List.mem_cons_self ..)) hm.2
      | cons m' ms =>
        have hatom := hm.1.needsBrackets hm.2 (hfront m (List.mem_cons_self ..))
        rw [shownMembers_cons_cons] at h
        cases ns with
        | nil =>
          rw [shownMembers_singleton] at h
          have hatom' := hm.1.needsBrackets_of_followed hn.1 hatom hn.2 [] _
            ((List.append_nil _).trans h)
          refine absurd ?_ (hm.1.not_nested_bar (' ' :: shownMembers (m' :: ms)))
          exact h ▸ hn.1.nested_of_atom hatom'
        | cons n' ns =>
          rw [shownMembers_cons_cons] at h
          have hatom' := hm.1.needsBrackets_of_followed hn.1 hatom hn.2 _ _ h
          obtain ⟨hfirst, hrest⟩ := hm.1.first_member_inj hn.1 hatom hatom' h
          have hmore := (List.cons.inj hrest).2
          rw [hsame m (List.mem_cons_self ..) hn.1 hfirst,
            ih (n' :: ns) (List.cons_ne_nil _ _) (List.cons_ne_nil _ _) hms hns
            (fun m hm => hclear m (List.mem_cons_of_mem _ hm))
            (fun m hm => hfront m (List.mem_cons_of_mem _ hm))
            (fun m hm => hsame m (List.mem_cons_of_mem _ hm)) hmore]

/-- A type with the text of a clear one is that type. -/
theorem IsSimple.eq_of_shown_eq {t : Ty} (h : t.IsSimple) (hclear : t.IsClear) {u : Ty}
    (hu : u.IsSimple) (heq : u.shown = t.shown) : u = t := by
  induction h generalizing u with
  | primitive p => exact hu.eq_primitive heq
  | array he ih =>
    cases hclear with
    | array hclear => exact hu.eq_array he (ih hclear) heq
  | promise hv ih =>
    cases hclear with
    | promise hclear => exact hu.eq_promise hv (ih hclear) heq
  | function names types result ihtypes ihresult =>
    have hfunction := IsSimple.function names types result
    cases id hclear with
    | function hclears hclearRet _ =>
      exact hu.eq_function hfunction hclear (fun p hp => ihtypes p hp (hclears p hp))
        (ihresult hclearRet) heq
  | @union ms several members flat ih =>
    cases hclear with
    | union hclears hfront =>
      have hms : ms ≠ [] := (IsSimple.union several members flat).members_ne_nil
      rw [← shownMembers_members, shown_union] at heq
      have hmembers := shownMembers_inj ms u.members hms hu.members_ne_nil
        (fun m hm => ⟨members m hm, flat m hm⟩) hu.of_mem_members hclears hfront
        (fun m hm => ih m hm (hclears m hm)) heq
      cases hu with
      | union => rw [← hmembers]; rfl
      | _ =>
        rw [← hmembers] at several
        exact absurd several (Nat.not_le.mpr (Nat.lt_succ_self 1))

/-! ### Two readings -/

theorem shownMembers_append (ms ns : List Ty) (hms : ms ≠ []) (hns : ns ≠ []) :
    shownMembers (ms ++ ns) = shownMembers ms ++ ' ' :: '|' :: ' ' :: shownMembers ns := by
  induction ms with
  | nil => exact absurd rfl hms
  | cons m ms ih =>
    cases ms with
    | nil =>
      obtain ⟨n, ns, rfl⟩ := List.exists_cons_of_ne_nil hns
      rw [List.singleton_append, shownMembers_cons_cons, shownMembers_singleton]
    | cons m' ms =>
      rw [List.cons_append, List.cons_append, shownMembers_cons_cons, ← List.cons_append,
        ih (List.cons_ne_nil _ _), shownMembers_cons_cons]
      simp

theorem shownMembers_replace (front back : List Ty) {ms ns : List Ty} (hms : ms ≠ [])
    (hns : ns ≠ []) (h : shownMembers ms = shownMembers ns) :
    shownMembers (front ++ (ms ++ back)) = shownMembers (front ++ (ns ++ back)) := by
  have hback : shownMembers (ms ++ back) = shownMembers (ns ++ back) := by
    cases back with
    | nil => rw [List.append_nil, List.append_nil, h]
    | cons t back =>
      rw [shownMembers_append ms _ hms (List.cons_ne_nil _ _),
        shownMembers_append ns _ hns (List.cons_ne_nil _ _), h]
  cases front with
  | nil => exact hback
  | cons t front =>
    rw [shownMembers_append _ _ (List.cons_ne_nil _ _) (List.append_ne_nil_of_left_ne_nil hms _),
      shownMembers_append _ _ (List.cons_ne_nil _ _) (List.append_ne_nil_of_left_ne_nil hns _),
      hback]

theorem shownMembers_function (params : List Param) {ret : Ty} (hret : ret.IsSimple)
    {ms : List Ty} (hms : ms ≠ []) :
    shownMembers (function params ret :: ms) =
      (function params (.union (ret.members ++ ms))).shown := by
  obtain ⟨m, ms, rfl⟩ := List.exists_cons_of_ne_nil hms
  rw [shownMembers_cons_cons, shown_function, shown_function, shown_union,
    shownMembers_append _ _ hret.members_ne_nil (List.cons_ne_nil _ _), shownMembers_members]
  simp

/-- Another type of the same text, which an array puts in brackets if it does the first. -/
structure IsTwin (t u : Ty) : Prop where
  simple : u.IsSimple
  ne : u ≠ t
  shown : u.shown = t.shown
  needsBrackets : u.needsBrackets = t.needsBrackets

theorem IsTwin.array {e u : Ty} (h : e.IsTwin u) : (Ty.array e).IsTwin (.array u) where
  simple := h.simple.array
  ne heq := h.ne (Ty.array.inj heq)
  shown := by rw [shown_array, shown_array, shownElement, shownElement, h.shown, h.needsBrackets]
  needsBrackets := rfl

theorem IsTwin.promise {t u : Ty} (h : t.IsTwin u) : (Ty.promise t).IsTwin (.promise u) where
  simple := h.simple.promise
  ne heq := h.ne (Ty.promise.inj heq)
  shown := by rw [shown_promise, shown_promise, h.shown]
  needsBrackets := rfl

theorem function_inj {ps qs : List Param} {t u : Ty} (h : function ps t = function qs u) :
    ps = qs ∧ t = u := by
  cases h
  exact ⟨rfl, rfl⟩

theorem IsTwin.param {front back : List Param} {p : Param} {ret u : Ty}
    (h : (Ty.function (front ++ p :: back) ret).IsSimple) (hu : p.ty.IsTwin u) :
    (Ty.function (front ++ p :: back) ret).IsTwin
      (Ty.function (front ++ { p with ty := u } :: back) ret) where
  simple := by
    cases h with
    | function names types result =>
      rw [List.forall_mem_append, List.forall_mem_cons] at names types
      refine .function ?_ ?_ result
      · rw [List.forall_mem_append, List.forall_mem_cons]
        exact names
      · rw [List.forall_mem_append, List.forall_mem_cons]
        exact ⟨types.1, hu.simple, types.2.2⟩
  ne heq := by
    have hparam := List.append_cancel_left (function_inj heq).1
    exact hu.ne (congrArg ParamOf.ty (List.cons.inj hparam).1)
  shown := by
    have hparam : shownParam { p with ty := u } = shownParam p := by
      unfold shownParam
      rw [hu.shown]
      rfl
    rw [shown_function, shown_function, shownParams, shownParams, List.map_append, List.map_cons,
      List.map_append, List.map_cons, hparam]
  needsBrackets := rfl

theorem IsTwin.result {params : List Param} {ret u : Ty}
    (h : (Ty.function params ret).IsSimple) (hu : ret.IsTwin u) :
    (Ty.function params ret).IsTwin (Ty.function params u) where
  simple := by
    cases h with
    | function names types result => exact .function names types hu.simple
  ne heq := hu.ne (function_inj heq).2
  shown := by rw [shown_function, shown_function, hu.shown]
  needsBrackets := rfl

/-- The first member of a result that is a union may be all of the result. -/
theorem IsTwin.ofUnionResult {params : List Param} {ms : List Ty}
    (h : (Ty.function params (.union ms)).IsSimple) :
    ∃ u, (Ty.function params (.union ms)).IsTwin u := by
  cases h with
  | function names types result =>
    cases result with
    | union several members flat =>
      match ms, several with
      | m :: m' :: ms, _ =>
        obtain ⟨hm, hms⟩ := List.forall_mem_cons.mp members
        obtain ⟨hflat, hflats⟩ := List.forall_mem_cons.mp flat
        refine ⟨.union (Ty.function params m :: m' :: ms), ?_, nofun, ?_, rfl⟩
        · refine .union (Nat.le_add_left _ _) ?_ ?_
          · exact List.forall_mem_cons.mpr ⟨.function names types hm, hms⟩
          · exact List.forall_mem_cons.mpr ⟨rfl, hflats⟩
        · rw [shown_union, shownMembers_function params hm (List.cons_ne_nil _ _)]
          cases m with
          | union => cases hflat
          | _ => rfl

/-- A member may be replaced by one of the same text, or by the members of a union of that text. -/
theorem IsTwin.member {front back : List Ty} {m u : Ty}
    (h : (Ty.union (front ++ m :: back)).IsSimple) (hu : m.IsTwin u) :
    (Ty.union (front ++ m :: back)).IsTwin (.union (front ++ (u.members ++ back))) := by
  cases h with
  | union several members flat =>
    rw [List.forall_mem_append, List.forall_mem_cons] at members flat
    refine ⟨.union ?_ ?_ ?_, ?_, ?_, rfl⟩
    · have hpos := List.length_pos_iff.mpr hu.simple.members_ne_nil
      simp only [List.length_append, List.length_cons] at several ⊢
      omega
    · simp only [List.forall_mem_append]
      exact ⟨members.1, fun t ht => (hu.simple.of_mem_members t ht).1, members.2.2⟩
    · simp only [List.forall_mem_append]
      exact ⟨flat.1, fun t ht => (hu.simple.of_mem_members t ht).2, flat.2.2⟩
    · intro heq
      have hrest : u.members ++ back = [m] ++ back := List.append_cancel_left (Ty.union.inj heq)
      exact hu.ne (hu.simple.eq_of_members (List.append_cancel_right hrest))
    · have hsame : shownMembers u.members = shownMembers [m] := by
        rw [shownMembers_members, shownMembers_singleton, hu.shown]
      rw [shown_union, shown_union]
      exact shownMembers_replace front back hu.simple.members_ne_nil (List.cons_ne_nil _ _) hsame

/-- A function in front of a bar may end there, or the bar may be part of its result. -/
theorem IsTwin.ofFront {front back : List Ty} {params : List Param} {ret : Ty} (hback : back ≠ [])
    (h : (Ty.union (front ++ Ty.function params ret :: back)).IsSimple) :
    ∃ u, (Ty.union (front ++ Ty.function params ret :: back)).IsTwin u := by
  cases h with
  | union several members flat =>
    rw [List.forall_mem_append, List.forall_mem_cons] at members flat
    obtain ⟨hfront, hfunction, hbacks⟩ := members
    obtain ⟨hflatFront, -, hflatBack⟩ := flat
    cases hfunction with
    | function names types result =>
      have hresult : (Ty.union (ret.members ++ back)).IsSimple := by
        refine .union ?_ ?_ ?_
        · have hpos := List.length_pos_iff.mpr result.members_ne_nil
          have hpos' := List.length_pos_iff.mpr hback
          rw [List.length_append]
          omega
        · rw [List.forall_mem_append]
          exact ⟨fun t ht => (result.of_mem_members t ht).1, hbacks⟩
        · rw [List.forall_mem_append]
          exact ⟨fun t ht => (result.of_mem_members t ht).2, hflatBack⟩
      have hlong : (Ty.function params (.union (ret.members ++ back))).IsSimple :=
        .function names types hresult
      have hshown := shownMembers_function params result hback
      cases front with
      | nil =>
        refine ⟨_, hlong, nofun, ?_, rfl⟩
        rw [shown_union, List.nil_append, hshown]
      | cons t front =>
        refine ⟨.union (t :: front ++ [Ty.function params (.union (ret.members ++ back))]), ?_, ?_,
          ?_, rfl⟩
        · refine .union ?_ ?_ ?_
          · simp
          · rw [List.forall_mem_append, List.forall_mem_singleton]
            exact ⟨hfront, hlong⟩
          · rw [List.forall_mem_append, List.forall_mem_singleton]
            exact ⟨hflatFront, rfl⟩
        · intro heq
          have hrest := List.append_cancel_left (Ty.union.inj heq)
          exact hback (List.cons.inj hrest).2.symm
        · rw [shown_union, shown_union]
          have hsame := hshown.symm
          rw [← shownMembers_singleton] at hsame
          have hreplaced := shownMembers_replace (t :: front) [] (List.cons_ne_nil _ _)
            (List.cons_ne_nil _ _) hsame
          rwa [List.append_nil, List.append_nil] at hreplaced

/-- A simple type that is not clear has a twin. -/
theorem IsSimple.exists_twin {t : Ty} (h : t.IsSimple) (hclear : ¬ t.IsClear) :
    ∃ u, t.IsTwin u := by
  induction h with
  | primitive p => exact absurd (.primitive p) hclear
  | array he ih =>
    obtain ⟨u, hu⟩ := ih fun hclear' => hclear hclear'.array
    exact ⟨_, hu.array⟩
  | promise hv ih =>
    obtain ⟨u, hu⟩ := ih fun hclear' => hclear hclear'.promise
    exact ⟨_, hu.promise⟩
  | @function params ret names types result ihtypes ihresult =>
    have hfunction := IsSimple.function names types result
    by_cases htypes : ∀ p ∈ params, p.ty.IsClear
    · by_cases hresult : ret.IsClear
      · cases result with
        | union => exact IsTwin.ofUnionResult hfunction
        | _ => exact absurd (.function htypes hresult rfl) hclear
      · obtain ⟨u, hu⟩ := ihresult hresult
        exact ⟨_, hu.result hfunction⟩
    · simp only [not_forall] at htypes
      obtain ⟨p, hp, hparam⟩ := htypes
      obtain ⟨u, hu⟩ := ihtypes p hp hparam
      obtain ⟨front, back, rfl⟩ := List.append_of_mem hp
      exact ⟨_, hu.param hfunction⟩
  | @union ms several members flat ih =>
    have hunion := IsSimple.union several members flat
    by_cases hmembers : ∀ m ∈ ms, m.IsClear
    · have hfront : ¬ ∀ m ∈ ms.dropLast, m.isCallable = false := fun hfront =>
        hclear (.union hmembers hfront)
      simp only [not_forall, Bool.not_eq_false] at hfront
      obtain ⟨m, hm, hcallable⟩ := hfront
      obtain ⟨front, back, hsplit⟩ := List.append_of_mem hm
      obtain ⟨last, rfl⟩ : ∃ last, ms = front ++ m :: (back ++ [last]) := by
        have hne : ms ≠ [] := hunion.members_ne_nil
        refine ⟨ms.getLast hne, ?_⟩
        conv => lhs; rw [← List.dropLast_append_getLast hne, hsplit]
        rw [List.append_assoc, List.cons_append]
      cases members m (List.dropLast_subset _ hm) with
      | function => exact IsTwin.ofFront (List.append_ne_nil_of_right_ne_nil _ (by simp)) hunion
      | _ => cases hcallable
    · simp only [not_forall] at hmembers
      obtain ⟨m, hm, hmember⟩ := hmembers
      obtain ⟨u, hu⟩ := ih m hm hmember
      obtain ⟨front, back, rfl⟩ := List.append_of_mem hm
      exact ⟨_, hu.member hunion⟩

/-- A type made of primitive types, arrays, promises, functions and unions is the only such type
with its text exactly if it is clear. -/
theorem told_by_display_iff_clear (t : Ty) (h : t.IsSimple) :
    (∀ u : Ty, u.IsSimple → u.display = t.display → u = t) ↔ t.IsClear := by
  constructor
  · intro honly
    by_contra hclear
    obtain ⟨u, hu⟩ := h.exists_twin hclear
    exact hu.ne (honly u hu.simple ((shown_eq_iff u t).mp hu.shown))
  · intro hclear u hu heq
    exact h.eq_of_shown_eq hclear hu ((shown_eq_iff u t).mpr heq)

def nullableListener : Ty :=
  .union [.null, function
    [{ name := "event", ty := .union [.string, .undefined], optional := true },
     { name := "args", ty := .array (function [] .any), rest := true }] (.promise .void)]

theorem told_by_display_of_listener :
    nullableListener.IsSimple ∧ nullableListener.IsClear ∧
      ∀ u : Ty, u.IsSimple → u.display = nullableListener.display → u = nullableListener := by
  have hsimple : nullableListener.IsSimple := by
    refine .union (by decide) (List.forall_mem_cons.mpr ⟨.primitive _, ?_⟩) (by decide)
    refine List.forall_mem_singleton.mpr (.function ?_ ?_ (.promise (.primitive _)))
    · have hevent : IsIdentifier "event" :=
        ⟨by decide, fun c hc _ => List.all_eq_true.mp (by decide) c hc⟩
      have hargs : IsIdentifier "args" :=
        ⟨by decide, fun c hc _ => List.all_eq_true.mp (by decide) c hc⟩
      exact List.forall_mem_cons.mpr ⟨hevent, List.forall_mem_singleton.mpr hargs⟩
    · refine List.forall_mem_cons.mpr ⟨.union (by decide) ?_ (by decide),
        List.forall_mem_singleton.mpr (.array (.function nofun nofun (.primitive _)))⟩
      exact List.forall_mem_cons.mpr ⟨.primitive _, List.forall_mem_singleton.mpr (.primitive _)⟩
  have hclear : nullableListener.IsClear := by
    refine .union (List.forall_mem_cons.mpr ⟨.primitive _, ?_⟩) (by decide)
    refine List.forall_mem_singleton.mpr (.function ?_ (.promise (.primitive _)) rfl)
    refine List.forall_mem_cons.mpr ⟨.union ?_ (by decide),
      List.forall_mem_singleton.mpr (.array (.function nofun (.primitive _) rfl))⟩
    exact List.forall_mem_cons.mpr ⟨.primitive _, List.forall_mem_singleton.mpr (.primitive _)⟩
  exact ⟨hsimple, hclear, (told_by_display_iff_clear nullableListener hsimple).mpr hclear⟩

def nullableFunction : Ty := .union [function [] .any, .null]

def functionToNullable : Ty := function [] (.union [.any, .null])

/-- The bar is read behind the function in one, and as part of its result in the other. -/
theorem bar_is_read_in_two_ways :
    nullableFunction.IsSimple ∧ functionToNullable.IsSimple ∧
      nullableFunction.display = functionToNullable.display ∧
      nullableFunction ≠ functionToNullable := by
  refine ⟨.union (by decide) ?_ (by decide), .function nofun nofun ?_, by decide, nofun⟩
  · exact List.forall_mem_cons.mpr ⟨.function nofun nofun (.primitive _),
      List.forall_mem_singleton.mpr (.primitive _)⟩
  · exact .union (by decide) (List.forall_mem_cons.mpr ⟨.primitive _,
      List.forall_mem_singleton.mpr (.primitive _)⟩) (by decide)

end Ty

end CodeCompletion
