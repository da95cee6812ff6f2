import Mathlib.Data.List.Basic
import Mathlib.Tactic.SplitIfs

/-!
# Texts in which brackets match

A text is scanned with the number of open brackets as the state. Stops are characters that may
stand inside brackets only. Where a text without stops is followed by one, the place between them
can be told: there is one way to split a text there.
-/

namespace CodeCompletion.Text

/-- Round and angle brackets open; so does the equals sign, since it stands only in front of the
closing angle bracket with which it makes an arrow. -/
def opens (c : Char) : Bool := c == '(' || c == '<' || c == '='

def closes (c : Char) : Bool := c == ')' || c == '>'

variable (stops : List Char)

/-- The number of open brackets behind a character; none if it closes a bracket that was not opened,
or is a stop outside of brackets. -/
def depthAfter (depth : Nat) (c : Char) : Option Nat :=
  if opens c then some (depth + 1)
  else if closes c then if depth = 0 then none else some (depth - 1)
  else if depth = 0 ∧ c ∈ stops then none
  else some depth

def scanDepth (depth : Nat) (s : List Char) : Option Nat := s.foldlM (depthAfter stops) depth

/-- All brackets of a text match, and stops stand only inside of them. -/
def Nested (s : List Char) : Prop := scanDepth stops 0 s = some 0

/-- A text that is empty or starts with a character which ends what stands in front of it. -/
def Stopped (s : List Char) : Prop := ∀ c ∈ s.head?, depthAfter stops 0 c = none

def Ordinary (c : Char) : Prop := opens c = false ∧ closes c = false ∧ c ∉ stops

instance (s : List Char) : Decidable (Nested stops s) :=
  inferInstanceAs (Decidable (scanDepth stops 0 s = some 0))

instance (c : Char) : Decidable (Ordinary stops c) :=
  inferInstanceAs (Decidable (opens c = false ∧ closes c = false ∧ c ∉ stops))

variable {stops : List Char}

/-! ### One character -/

theorem depthAfter_of_ordinary {c : Char} (h : Ordinary stops c) (depth : Nat) :
    depthAfter stops depth c = some depth := by
  obtain ⟨hopens, hcloses, hstop⟩ := h
  rw [depthAfter, hopens, hcloses, if_neg Bool.false_ne_true, if_neg Bool.false_ne_true,
    if_neg fun hand => hstop hand.2]

theorem depthAfter_succ (stops' : List Char) {depth depth' : Nat} {c : Char}
    (h : depthAfter stops depth c = some depth') :
    depthAfter stops' (depth + 1) c = some (depth' + 1) := by
  unfold depthAfter at *
  split_ifs at * <;> grind

theorem depthAfter_mono {stops' : List Char} (hsub : stops' ⊆ stops) {depth depth' : Nat} {c : Char}
    (h : depthAfter stops depth c = some depth') : depthAfter stops' depth c = some depth' := by
  unfold depthAfter at *
  split_ifs at * <;> grind

/-! ### Whole texts -/

theorem scanDepth_cons (depth : Nat) (c : Char) (s : List Char) :
    scanDepth stops depth (c :: s) = (depthAfter stops depth c).bind (scanDepth stops · s) := by
  rw [scanDepth, List.foldlM_cons]
  rfl

theorem scanDepth_append (depth : Nat) (front back : List Char) :
    scanDepth stops depth (front ++ back) =
      (scanDepth stops depth front).bind (scanDepth stops · back) := by
  rw [scanDepth, List.foldlM_append]
  rfl

theorem scanDepth_succ (stops' : List Char) {s : List Char} {depth depth' : Nat}
    (h : scanDepth stops depth s = some depth') :
    scanDepth stops' (depth + 1) s = some (depth' + 1) := by
  induction s generalizing depth with
  | nil =>
    cases h
    rfl
  | cons c s ih =>
    rw [scanDepth_cons] at h ⊢
    obtain ⟨next, hnext, h⟩ := Option.bind_eq_some_iff.mp h
    rw [depthAfter_succ stops' hnext]
    exact ih h

theorem scanDepth_mono {stops' : List Char} (hsub : stops' ⊆ stops) {s : List Char}
    {depth depth' : Nat} (h : scanDepth stops depth s = some depth') :
    scanDepth stops' depth s = some depth' := by
  induction s generalizing depth with
  | nil => exact h
  | cons c s ih =>
    rw [scanDepth_cons] at h ⊢
    obtain ⟨next, hnext, h⟩ := Option.bind_eq_some_iff.mp h
    rw [depthAfter_mono hsub hnext]
    exact ih h

namespace Nested

variable {a b : List Char}

theorem nil : Nested stops [] := rfl

theorem append (ha : Nested stops a) (hb : Nested stops b) : Nested stops (a ++ b) := by
  rw [Nested, scanDepth_append, ha]
  exact hb

theorem mono {stops' : List Char} (hsub : stops' ⊆ stops) (h : Nested stops a) :
    Nested stops' a :=
  scanDepth_mono hsub h

theorem ofOrdinary (h : ∀ c ∈ a, Ordinary stops c) : Nested stops a := by
  induction a with
  | nil => exact nil
  | cons c a ih =>
    obtain ⟨hc, ha⟩ := List.forall_mem_cons.mp h
    rw [Nested, scanDepth_cons, depthAfter_of_ordinary hc]
    exact ih ha

theorem intercalate {sep : List Char} (hsep : Nested stops sep) (parts : List (List Char))
    (h : ∀ part ∈ parts, Nested stops part) : Nested stops (sep.intercalate parts) := by
  induction parts with
  | nil => exact nil
  | cons part parts ih =>
    obtain ⟨hpart, hparts⟩ := List.forall_mem_cons.mp h
    cases parts with
    | nil =>
      rw [List.intercalate_singleton]
      exact hpart
    | cons next parts =>
      rw [List.intercalate_cons_cons]
      exact (hpart.append hsep).append (ih hparts)

theorem bracketed (stops' : List Char) {o c : Char} (ho : opens o = true) (hc : closes c = true)
    (h : Nested stops a) : Nested stops' (o :: (a ++ [c])) := by
  have hopen : depthAfter stops' 0 o = some 1 := by rw [depthAfter, if_pos ho]
  have hnot : opens c = false := by
    unfold closes at hc
    unfold opens
    rcases Bool.or_eq_true _ _ ▸ hc with hc | hc <;> rw [eq_of_beq hc] <;> rfl
  have hclose : depthAfter stops' 1 c = some 0 := by
    rw [depthAfter, hnot, if_neg Bool.false_ne_true, if_pos hc]
    rfl
  rw [Nested, scanDepth_cons, hopen, Option.bind_some, scanDepth_append,
    scanDepth_succ stops' h, Option.bind_some, scanDepth_cons, hclose]
  rfl

theorem of_append {stops' : List Char} (hsub : stops' ⊆ stops) (h : Nested stops (a ++ b))
    (ha : Nested stops' a) : Nested stops a ∧ Nested stops b := by
  rw [Nested, scanDepth_append] at h
  obtain ⟨depth, hdepth, h⟩ := Option.bind_eq_some_iff.mp h
  have hzero : some depth = some 0 := (scanDepth_mono hsub hdepth).symm.trans ha
  cases hzero
  exact ⟨hdepth, h⟩

end Nested

theorem Stopped.cons {c : Char} (h : depthAfter stops 0 c = none) (s : List Char) :
    Stopped stops (c :: s) := by
  intro c' hc'
  cases hc'
  exact h

theorem not_nested_of_stopped {c : Char} {s : List Char} (h : depthAfter stops 0 c = none) :
    ¬ Nested stops (c :: s) := by
  rw [Nested, scanDepth_cons, h]
  exact nofun

/-- A nested text ends where the first stop behind it stands, whatever follows. -/
theorem split_unique {a a' r r' : List Char} (ha : Nested stops a) (ha' : Nested stops a')
    (hr : Stopped stops r) (hr' : Stopped stops r') (h : a ++ r = a' ++ r') : a = a' ∧ r = r' := by
  suffices hdepth : ∀ depth, scanDepth stops depth a = some 0 → scanDepth stops depth a' = some 0 →
      a = a' ∧ r = r' from hdepth 0 ha ha'
  clear ha ha'
  -- behind one text the other cannot go on: it would have to start with a stop
  have hends (t r : List Char) (hr : Stopped stops r) (c : Char) (s : List Char)
      (hsplit : r = c :: s ++ t) : ¬ scanDepth stops 0 (c :: s) = some 0 := by
    have hc : depthAfter stops 0 c = none := hr c (by rw [hsplit]; rfl)
    exact not_nested_of_stopped hc
  induction a generalizing a' with
  | nil =>
    intro depth hnil ha'
    cases hnil
    cases a' with
    | nil => exact ⟨rfl, h⟩
    | cons c a' => exact absurd ha' (hends r' r hr c a' h)
  | cons c a ih =>
    intro depth hcons ha'
    cases a' with
    | nil =>
      cases ha'
      exact absurd hcons (hends r r' hr' c a h.symm)
    | cons c' a' =>
      obtain ⟨rfl, htails⟩ := List.cons.inj h
      rw [scanDepth_cons] at hcons ha'
      obtain ⟨next, hnext, hcons⟩ := Option.bind_eq_some_iff.mp hcons
      rw [hnext] at ha'
      obtain ⟨rfl, hrest⟩ := ih htails next hcons ha'
      exact ⟨rfl, hrest⟩

/-! ### Joined texts -/

theorem intercalate_cons_eq_flatMap (sep part : List Char) (rest : List (List Char)) :
    sep.intercalate (part :: rest) = part ++ rest.flatMap (sep ++ ·) := by
  induction rest generalizing part with
  | nil => rw [List.intercalate_singleton, List.flatMap_nil, List.append_nil]
  | cons next rest ih =>
    rw [List.intercalate_cons_cons, ih, List.flatMap_cons, List.append_assoc, List.append_assoc]

theorem stopped_flatMap {stop : Char} (hstop : depthAfter stops 0 stop = none) (sep : List Char)
    (parts : List (List Char)) : Stopped stops (parts.flatMap (stop :: sep ++ ·)) := by
  cases parts with
  | nil => exact nofun
  | cons part parts => exact .cons hstop _

theorem flatMap_inj {stop : Char} (hstop : depthAfter stops 0 stop = none) (sep : List Char)
    (parts parts' : List (List Char)) (h : ∀ part ∈ parts, Nested stops part)
    (h' : ∀ part ∈ parts', Nested stops part)
    (heq : parts.flatMap (stop :: sep ++ ·) = parts'.flatMap (stop :: sep ++ ·)) :
    parts = parts' := by
  induction parts generalizing parts' with
  | nil =>
    cases parts' with
    | nil => rfl
    | cons part' rest' => cases heq
  | cons part rest ih =>
    cases parts' with
    | nil => cases heq
    | cons part' rest' =>
      obtain ⟨hpart, hrest⟩ := List.forall_mem_cons.mp h
      obtain ⟨hpart', hrest'⟩ := List.forall_mem_cons.mp h'
      rw [List.flatMap_cons, List.flatMap_cons, List.append_assoc, List.append_assoc] at heq
      obtain ⟨rfl, hbehind⟩ := split_unique hpart hpart' (stopped_flatMap hstop sep rest)
        (stopped_flatMap hstop sep rest') (List.append_cancel_left heq)
      rw [ih rest' hrest hrest' hbehind]

/-- Texts without stops are read back from what they are joined to with a stop in between. -/
theorem intercalate_inj {stop : Char} (hstop : depthAfter stops 0 stop = none) (sep : List Char)
    (parts parts' : List (List Char)) (h : ∀ part ∈ parts, part ≠ [] ∧ Nested stops part)
    (h' : ∀ part ∈ parts', part ≠ [] ∧ Nested stops part)
    (heq : (stop :: sep).intercalate parts = (stop :: sep).intercalate parts') :
    parts = parts' := by
  cases parts with
  | nil =>
    cases parts' with
    | nil => rfl
    | cons part' rest' =>
      rw [intercalate_cons_eq_flatMap] at heq
      exact absurd (List.append_eq_nil_iff.mp heq.symm).1 (h' part' (List.mem_cons_self ..)).1
  | cons part rest =>
    cases parts' with
    | nil =>
      rw [intercalate_cons_eq_flatMap] at heq
      exact absurd (List.append_eq_nil_iff.mp heq).1 (h part (List.mem_cons_self ..)).1
    | cons part' rest' =>
      obtain ⟨hpart, hrest⟩ := List.forall_mem_cons.mp h
      obtain ⟨hpart', hrest'⟩ := List.forall_mem_cons.mp h'
      rw [intercalate_cons_eq_flatMap, intercalate_cons_eq_flatMap] at heq
      obtain ⟨rfl, hbehind⟩ := split_unique hpart.2 hpart'.2 (stopped_flatMap hstop sep rest)
        (stopped_flatMap hstop sep rest') heq
      rw [flatMap_inj hstop sep rest rest' (fun p hp => (hrest p hp).2)
        (fun p hp => (hrest' p hp).2) hbehind]

end CodeCompletion.Text
