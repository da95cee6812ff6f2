import CodeCompletion.Proofs.Text.Marks
import CodeCompletion.Proofs.Types.Properties
import CodeCompletion.Stage.Insertion

/-!
# Names and literals inside types

What completion writes of a type is put together from the names and literals inside it. The parts
of a type that stages look at have no others.
-/

namespace CodeCompletion

def Literal.texts : Literal → List String
  | .string value | .number value => [value]
  | .bool _ => []
  | .enumMember enumName member => [enumName, member]

namespace Ty

mutual

/-- All names and literals inside a type. -/
def texts : Ty → List String
  | .primitive _ => []
  | .literal l => l.texts
  | .array t => texts t
  | .promise t => texts t
  | .object ⟨name, props, calls, constructs⟩ =>
    name.toList ++ (textsOfProperties props ++ (textsOfSignatures calls ++
      textsOfSignatures constructs))
  | .union ms => textsOfMembers ms
  | .named name => [name]

def textsOfMembers : List Ty → List String
  | [] => []
  | t :: ts => texts t ++ textsOfMembers ts

def textsOfProperties : List (PropertyOf Ty) → List String
  | [] => []
  | ⟨name, ty, _, _⟩ :: ps => name :: (texts ty ++ textsOfProperties ps)

def textsOfSignatures : List (SignatureOf Ty) → List String
  | [] => []
  | ⟨params, ret⟩ :: ss => textsOfParams params ++ (texts ret ++ textsOfSignatures ss)

def textsOfParams : List (ParamOf Ty) → List String
  | [] => []
  | ⟨name, ty, _, _⟩ :: ps => name :: (texts ty ++ textsOfParams ps)

end

/-! ### Parts -/

theorem texts_subset_of_mem (ms : List Ty) (t : Ty) (h : t ∈ ms) :
    t.texts ⊆ textsOfMembers ms := by
  induction ms with
  | nil => cases h
  | cons u ms ih =>
    rw [textsOfMembers]
    rcases List.mem_cons.mp h with rfl | h
    · exact List.subset_append_left _ _
    · exact List.subset_append_of_subset_right _ (ih h)

theorem textsOfMembers_subset (kept ms : List Ty) (h : kept ⊆ ms) :
    textsOfMembers kept ⊆ textsOfMembers ms := by
  induction kept with
  | nil => exact List.nil_subset _
  | cons t kept ih =>
    rw [textsOfMembers]
    exact List.append_subset.mpr ⟨texts_subset_of_mem ms t (h (List.mem_cons_self ..)),
      ih fun u hu => h (List.mem_cons_of_mem _ hu)⟩

theorem name_mem_textsOfProperties (ps : List Property) (p : Property) (h : p ∈ ps) :
    p.name ∈ textsOfProperties ps := by
  induction ps with
  | nil => cases h
  | cons q ps ih =>
    obtain ⟨name, ty, optional, symbol⟩ := q
    rw [textsOfProperties]
    rcases List.mem_cons.mp h with rfl | h
    · exact List.mem_cons_self ..
    · exact List.mem_cons_of_mem _ (List.mem_append_right _ (ih h))

theorem mem_textsOfParams (ps : List Param) (p : Param) (h : p ∈ ps) :
    p.name ∈ textsOfParams ps ∧ p.ty.texts ⊆ textsOfParams ps := by
  induction ps with
  | nil => cases h
  | cons q ps ih =>
    obtain ⟨name, ty, optional, rest⟩ := q
    rw [textsOfParams]
    rcases List.mem_cons.mp h with rfl | h
    · exact ⟨List.mem_cons_self .., fun s hs => List.mem_cons_of_mem _ (List.mem_append_left _ hs)⟩
    · obtain ⟨hname, hty⟩ := ih h
      exact ⟨List.mem_cons_of_mem _ (List.mem_append_right _ hname),
        fun s hs => List.mem_cons_of_mem _ (List.mem_append_right _ (hty hs))⟩

theorem textsOfParams_subset (ss : List Signature) (s : Signature) (h : s ∈ ss) :
    textsOfParams s.params ⊆ textsOfSignatures ss := by
  induction ss with
  | nil => cases h
  | cons s' ss ih =>
    obtain ⟨params, ret⟩ := s'
    rw [textsOfSignatures]
    rcases List.mem_cons.mp h with rfl | h
    · exact List.subset_append_left _ _
    · exact List.subset_append_of_subset_right _ (List.subset_append_of_subset_right _ (ih h))

theorem mem_texts_of_signature (t : Ty) (s : Signature)
    (h : s ∈ t.callSignatures ∨ s ∈ t.constructSignatures) (p : Param) (hp : p ∈ s.params) :
    p.name ∈ t.texts ∧ p.ty.texts ⊆ t.texts := by
  have hparams : textsOfParams s.params ⊆ t.texts := by
    cases t with
    | object o =>
      obtain ⟨name, props, calls, constructs⟩ := o
      rw [texts]
      rcases h with hcall | hconstruct
      · exact List.subset_append_of_subset_right _ (List.subset_append_of_subset_right _
          (List.subset_append_of_subset_left _ (textsOfParams_subset calls s hcall)))
      · exact List.subset_append_of_subset_right _ (List.subset_append_of_subset_right _
          (List.subset_append_of_subset_right _ (textsOfParams_subset constructs s hconstruct)))
    | _ => rcases h with hnone | hnone <;> cases hnone
  obtain ⟨hname, hty⟩ := mem_textsOfParams s.params p hp
  exact ⟨hparams hname, fun text htext => hparams (hty htext)⟩

theorem name_mem_texts_of_object (o : ObjectTy) (p : Property) (hp : p ∈ o.properties) :
    p.name ∈ (Ty.object o).texts := by
  obtain ⟨name, props, calls, constructs⟩ := o
  rw [texts]
  exact List.mem_append_right _ (List.mem_append_left _ (name_mem_textsOfProperties props p hp))

theorem name_mem_texts (t : Ty) (p : Property) (hp : p ∈ t.properties) : p.name ∈ t.texts := by
  cases t with
  | object o => exact name_mem_texts_of_object o p hp
  | union ms =>
    rw [properties] at hp
    split at hp
    · cases hp
    · rename_i first rest hobjects
      have hfirst : first ∈ ms.filterMap object? := hobjects ▸ List.mem_cons_self ..
      obtain ⟨t, ht, hobject⟩ := List.mem_filterMap.mp hfirst
      obtain rfl := eq_object_of_object? t first hobject
      exact texts_subset_of_mem ms _ ht (name_mem_texts_of_object first p (List.mem_filter.mp hp).1)
  | _ => cases hp

theorem texts_withoutNullish (t : Ty) : t.withoutNullish.texts ⊆ t.texts := by
  cases t with
  | union ms =>
    rw [withoutNullish]
    split
    · rename_i t hkept
      have ht : t ∈ ms.filter (!·.isNullish) := hkept ▸ List.mem_cons_self ..
      exact texts_subset_of_mem ms t (List.mem_filter.mp ht).1
    · exact textsOfMembers_subset _ ms (List.filter_subset_self _)
  | _ => exact List.Subset.refl _

end Ty

theorem Stage.texts_stubType (t : Ty) : (Stage.stubType t).texts ⊆ t.texts := by
  unfold Stage.stubType
  dsimp only
  split
  · exact List.nil_subset _
  · exact t.texts_withoutNullish

/-! ### Types as text -/

namespace Ty

theorem plain_primitive (p : Primitive) : Plain p.name := by
  cases p <;> decide

theorem plain_literal (l : Literal) (h : ∀ s ∈ l.texts, Plain s) : Plain l.display := by
  cases l with
  | string value =>
    have hvalue : Plain value := h value (List.mem_cons_self ..)
    have hquote : Plain "\"" := by decide
    exact (hquote.append hvalue).append hquote
  | number value => exact h value (List.mem_cons_self ..)
  | bool value => cases value <;> decide
  | enumMember enumName member =>
    have henum : Plain enumName := h enumName (List.mem_cons_self ..)
    have hmember : Plain member := h member (List.mem_cons_of_mem _ (List.mem_cons_self ..))
    have hdot : Plain "." := by decide
    exact (henum.append hdot).append hmember

theorem plain_paramHead {name : String} (h : Plain name) (optional rest : Bool) :
    Plain (paramHead name optional rest) := by
  have hcolon : Plain ": " := by decide
  have hdots : Plain (if rest then "..." else "") := by cases rest <;> decide
  have hquestion : Plain (if optional then "?" else "") := by cases optional <;> decide
  exact ((hdots.append h).append hquestion).append hcolon

mutual

theorem plain_display : (t : Ty) → (∀ s ∈ t.texts, Plain s) → Plain t.display
  | .primitive p, _ => by
    rw [display]
    exact plain_primitive p
  | .literal l, h => by
    rw [display]
    exact plain_literal l h
  | .array t, h => by
    have ht : Plain t.display := plain_display t h
    have hopen : Plain "(" := by decide
    have hclose : Plain ")[]" := by decide
    have hbare : Plain "[]" := by decide
    rw [display]
    split
    · exact (hopen.append ht).append hclose
    · exact ht.append hbare
  | .promise t, h => by
    have ht : Plain t.display := plain_display t h
    have hopen : Plain "Promise<" := by decide
    have hclose : Plain ">" := by decide
    rw [display]
    exact (hopen.append ht).append hclose
  | .object ⟨some name, props, calls, constructs⟩, h => by
    rw [display]
    exact h name (by rw [texts]; exact List.mem_cons_self ..)
  | .object ⟨none, props, calls, constructs⟩, h => by
    have hprops : Plain (displayProperties props) := plain_displayProperties props fun s hs =>
      h s (List.mem_append_right _ (List.mem_append_left _ hs))
    have hsignatures : ∀ s ∈ textsOfSignatures calls, Plain s := fun s hs =>
      h s (List.mem_append_right _ (List.mem_append_right _ (List.mem_append_left _ hs)))
    have hopen : Plain "\x7b " := by decide
    have hclose : Plain "\x7d" := by decide
    have hbraces : Plain ("\x7b " ++ displayProperties props ++ "\x7d") :=
      (hopen.append hprops).append hclose
    match props, calls with
    | [], [⟨params, ret⟩] =>
      have hparams : ∀ s ∈ displayParams params, Plain s := plain_displayParams params fun s hs =>
        hsignatures s (List.mem_append_left _ hs)
      have hret : Plain ret.display := plain_display ret fun s hs =>
        hsignatures s (List.mem_append_right _ (List.mem_append_left _ hs))
      have hparen : Plain "(" := by decide
      have hcomma : Plain ", " := by decide
      have harrow : Plain ") => " := by decide
      rw [display]
      exact ((hparen.append (hcomma.intercalate _ hparams)).append harrow).append hret
    | _ :: _, _ => exact hbraces
    | [], [] => exact hbraces
    | [], _ :: _ :: _ => exact hbraces
  | .union ms, h => by
    have hbar : Plain " | " := by decide
    rw [display]
    exact hbar.intercalate _ (plain_displayMembers ms h)
  | .named name, h => by
    rw [display]
    exact h name (List.mem_cons_self ..)

theorem plain_displayMembers : (ts : List Ty) → (∀ s ∈ textsOfMembers ts, Plain s) →
    ∀ s ∈ displayMembers ts, Plain s
  | [], _ => fun s hs => by
    rw [displayMembers] at hs
    cases hs
  | t :: ts, h => fun s hs => by
    rw [textsOfMembers] at h
    rw [displayMembers] at hs
    rcases List.mem_cons.mp hs with rfl | hs
    · exact plain_display t fun s hs => h s (List.mem_append_left _ hs)
    · exact plain_displayMembers ts (fun s hs => h s (List.mem_append_right _ hs)) s hs

theorem plain_displayParams : (ps : List (ParamOf Ty)) → (∀ s ∈ textsOfParams ps, Plain s) →
    ∀ s ∈ displayParams ps, Plain s
  | [], _ => fun s hs => by
    rw [displayParams] at hs
    cases hs
  | ⟨name, ty, optional, rest⟩ :: ps, h => fun s hs => by
    rw [textsOfParams] at h
    rw [displayParams] at hs
    rcases List.mem_cons.mp hs with rfl | hs
    · have hname : Plain name := h name (List.mem_cons_self ..)
      have hty : Plain ty.display := plain_display ty fun s hs =>
        h s (List.mem_cons_of_mem _ (List.mem_append_left _ hs))
      exact (plain_paramHead hname optional rest).append hty
    · exact plain_displayParams ps
        (fun s hs => h s (List.mem_cons_of_mem _ (List.mem_append_right _ hs))) s hs

theorem plain_displayProperties : (ps : List (PropertyOf Ty)) →
    (∀ s ∈ textsOfProperties ps, Plain s) → Plain (displayProperties ps)
  | [], _ => by
    rw [displayProperties]
    decide
  | ⟨name, ty, optional, _⟩ :: ps, h => by
    rw [textsOfProperties] at h
    have hname : Plain name := h name (List.mem_cons_self ..)
    have hty : Plain ty.display := plain_display ty fun s hs =>
      h s (List.mem_cons_of_mem _ (List.mem_append_left _ hs))
    have hrest : Plain (displayProperties ps) := plain_displayProperties ps fun s hs =>
      h s (List.mem_cons_of_mem _ (List.mem_append_right _ hs))
    have hquestion : Plain (if optional then "?" else "") := by cases optional <;> decide
    have hcolon : Plain ": " := by decide
    have hsemicolon : Plain "; " := by decide
    rw [displayProperties]
    exact ((((hname.append hquestion).append hcolon).append hty).append hsemicolon).append hrest

end

end Ty

theorem ParamOf.plain_display (p : Param) (hname : Plain p.name)
    (hty : ∀ s ∈ p.ty.texts, Plain s) : Plain p.display :=
  (Ty.plain_paramHead hname p.optional p.rest).append (p.ty.plain_display hty)

end CodeCompletion
