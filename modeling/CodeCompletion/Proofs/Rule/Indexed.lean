import CodeCompletion.Proofs.Rule.Scan
import Mathlib.Algebra.Group.Int.Defs
import Mathlib.Algebra.Group.Nat.Defs
import Mathlib.Data.List.InsertIdx

/-!
# A pass by index

The entries and their marks can be kept in two lists, with the place of the pass as an index into
both and the places of deleted entries taken out at the end. Each access to a list then can miss it.
Here such a pass is shown to keep the lists at the same length, to stay inside them, to end after at
most two rounds for each entry, and to leave what a pass over the marked list leaves.
-/

namespace CodeCompletion.Rule

/-! ### Accesses that can fail -/

section Accesses

variable {α : Type} (l : List α) (place : Nat) (a : α)

def setAt? : Option (List α) := if place < l.length then some (l.set place a) else none

/-- Puts an item in front of a place or behind all. -/
def insertAt? : Option (List α) := if place ≤ l.length then some (l.insertIdx place a) else none

def removeAt? : Option (List α) := if place < l.length then some (l.eraseIdx place) else none

def lastPlace? : Option Nat := if 0 < l.length then some (l.length - 1) else none

def removeAll? : List Nat → List α → Option (List α)
  | [], l => some l
  | place :: places, l => do removeAll? places (← removeAt? l place)

end Accesses

/-! ### The offset of a move -/

/-- A number, or the end of the signed 64-bit numbers that lies nearest. -/
def saturate (n : Int) : Int := max (-2 ^ 63) (min n (2 ^ 63 - 1))

/-- The place `offset` places on, in saturating arithmetic, but not behind the last one. -/
def clampOffset (index : Nat) (offset : Int) (last : Nat) : Nat :=
  min (max (saturate (saturate index + offset)) 0).toNat last

theorem clampOffset_le (index : Nat) (offset : Int) (last : Nat) :
    clampOffset index offset last ≤ last := Nat.min_le_right ..

theorem clampOffset_eq_landing (index : Nat) (offset : Int) (last : Nat) (hindex : index ≤ last)
    (hlast : last < 2 ^ 63) : clampOffset index offset last = landing index offset last := by
  unfold clampOffset landing saturate
  omega

theorem landing_eq_clamp (index : Nat) (offset : Int) (last : Nat) :
    (landing index offset last : Int) = max 0 (min (index + offset) last) := by
  unfold landing
  omega

/-! ### Rounds -/

/-- A pass on its way: the lists, the place that it looks at, the places of deleted entries, latest
first, and the metadata kept aside. -/
structure Pass where
  entries : List Entry
  marks : List Bool
  index : Nat := 0
  deleted : List Nat := []
  deferred : DeferredMap

namespace Pass

def act? (action : RuleEdit) (s : Pass) : Option Pass := do
  let entry ← s.entries[s.index]?
  match action with
  | .delete =>
    let marks ← setAt? s.marks s.index true
    return { s with marks, deleted := s.index :: s.deleted, index := s.index + 1 }
  | .patch p =>
    let patched := p.apply entry
    let entries ← setAt? s.entries s.index patched
    let marks ← setAt? s.marks s.index true
    return { s with entries, marks, index := s.index + 1
                    deferred := s.deferred.carry entry.name patched.name }
  | .duplicate placement p =>
    let copy := p.apply entry
    let place := match placement with
      | .before => s.index
      | .after => s.index + 1
    let entries ← insertAt? s.entries place copy
    let marks ← insertAt? s.marks place true
    let marks ← setAt? marks s.index true
    let marks ← setAt? marks (s.index + 1) true
    return { s with entries, marks, index := s.index + 2
                    deferred := s.deferred.carry entry.name copy.name }
  | .move offset =>
    let target := clampOffset s.index offset (← lastPlace? s.entries)
    let landed ← s.entries[target]?
    let entries ← removeAt? s.entries s.index
    let marks ← removeAt? s.marks s.index
    let entries ← insertAt? entries target { entry with sortText := landed.sortText }
    let marks ← insertAt? marks target true
    return { s with entries, marks, index := if target ≤ s.index then s.index + 1 else s.index }

/-- Looks at the entry at the index; says whether the pass goes on. -/
def round? (rule : Rule) (s : Pass) : Option (Bool × Pass) := do
  let touched ← s.marks[s.index]?
  let entry ← s.entries[s.index]?
  if touched || !rule.picks entry then return (true, { s with index := s.index + 1 })
  else return (rule.processMany, ← s.act? rule.action)

def removeDeleted? (s : Pass) : Option (List Entry × List Bool) := do
  return (← removeAll? s.deleted s.entries, ← removeAll? s.deleted s.marks)

inductive Reaches (rule : Rule) : Nat → Pass → Pass → Prop
  | refl (s : Pass) : Reaches rule 0 s s
  | round {n : Nat} {s t u : Pass} (inside : s.index < s.entries.length)
      (hround : s.round? rule = some (true, t)) (rest : Reaches rule n t u) :
      Reaches rule (n + 1) s u

/-- What a pass ends with: it is behind the last entry, or its last round does not go on. -/
def EndsWith (rule : Rule) (s final : Pass) : Prop :=
  ∃ n t, Reaches rule n s t ∧
    (t.entries.length ≤ t.index ∧ final = t ∨
      t.index < t.entries.length ∧ t.round? rule = some (false, final))

/-! ### One action on two lists of one length -/

def mark (entries : List Entry) (marks : List Bool) : List Marked :=
  (entries.zip marks).map fun (entry, touched) => ⟨entry, touched⟩

theorem map_entry_mark {entries : List Entry} {marks : List Bool}
    (h : entries.length = marks.length) : (mark entries marks).map (·.entry) = entries := by
  rw [mark, List.map_map]
  exact List.map_fst_zip (Nat.le_of_eq h)

theorem map_touched_mark {entries : List Entry} {marks : List Bool}
    (h : entries.length = marks.length) : (mark entries marks).map (·.touched) = marks := by
  rw [mark, List.map_map]
  exact List.map_snd_zip (Nat.le_of_eq h.symm)

theorem mark_map (l : List Marked) : mark (l.map (·.entry)) (l.map (·.touched)) = l := by
  rw [mark, List.zip_map', List.map_map]
  exact List.map_id l

/-- The pass over the entries of a marked list and their marks. -/
def ofMarked (l : List Marked) (index : Nat) (deleted : List Nat) (deferred : DeferredMap) : Pass :=
  { entries := l.map (·.entry), marks := l.map (·.touched), index, deleted, deferred }

theorem ofMarked_mark {s : Pass} (h : s.entries.length = s.marks.length) :
    ofMarked (mark s.entries s.marks) s.index s.deleted s.deferred = s := by
  rw [ofMarked, map_entry_mark h, map_touched_mark h]

section Actions

variable (front : List Marked) (m : Marked) (back : List Marked) (deleted : List Nat)
  (deferred : DeferredMap)

theorem act?_delete :
    (ofMarked (front ++ m :: back) front.length deleted deferred).act? .delete =
      some (ofMarked (front ++ ⟨m.entry, true⟩ :: back) (front.length + 1)
        (front.length :: deleted) deferred) := by
  simp [act?, ofMarked, setAt?]

theorem act?_patch (p : RulePatch) :
    (ofMarked (front ++ m :: back) front.length deleted deferred).act? (.patch p) =
      some (ofMarked (front ++ ⟨p.apply m.entry, true⟩ :: back) (front.length + 1) deleted
        (deferred.carry m.entry.name (p.apply m.entry).name)) := by
  simp [act?, ofMarked, setAt?]

theorem act?_duplicate_before (p : RulePatch) :
    (ofMarked (front ++ m :: back) front.length deleted deferred).act? (.duplicate .before p) =
      some (ofMarked (front ++ ⟨p.apply m.entry, true⟩ :: ⟨m.entry, true⟩ :: back)
        (front.length + 2) deleted (deferred.carry m.entry.name (p.apply m.entry).name)) := by
  have hinsert {β : Type} (f : Marked → β) (a : β) :
      (front.map f ++ f m :: back.map f).insertIdx front.length a =
        front.map f ++ a :: f m :: back.map f := by
    have h := insertIdx_append_right (front.map f) (f m :: back.map f) 0 a
    rwa [List.length_map] at h
  simp [act?, ofMarked, setAt?, insertAt?, hinsert]

theorem act?_duplicate_after (p : RulePatch) :
    (ofMarked (front ++ m :: back) front.length deleted deferred).act? (.duplicate .after p) =
      some (ofMarked (front ++ ⟨m.entry, true⟩ :: ⟨p.apply m.entry, true⟩ :: back)
        (front.length + 2) deleted (deferred.carry m.entry.name (p.apply m.entry).name)) := by
  have hinsert {β : Type} (f : Marked → β) (a : β) :
      (front.map f ++ f m :: back.map f).insertIdx (front.length + 1) a =
        front.map f ++ f m :: a :: back.map f := by
    have h := insertIdx_append_right (front.map f) (f m :: back.map f) 1 a
    rwa [List.length_map] at h
  simp [act?, ofMarked, setAt?, insertAt?, hinsert]

theorem act?_move (offset : Int) (target : Nat)
    (htarget : target = clampOffset front.length offset (front.length + back.length)) :
    (ofMarked (front ++ m :: back) front.length deleted deferred).act? (.move offset) =
      some (ofMarked ((front ++ back).insertIdx target (movedTo front.reverse m back target))
        (if target ≤ front.length then front.length + 1 else front.length) deleted deferred) := by
  have hle : target ≤ front.length + back.length := htarget ▸ clampOffset_le ..
  have hentry : ((front ++ m :: back).map (·.entry))[front.length]? = some m.entry := by simp
  have hlast : lastPlace? ((front ++ m :: back).map (·.entry)) =
      some (front.length + back.length) := by
    simp [lastPlace?]
  have hlanded : ∃ landed, ((front ++ m :: back).map (·.entry))[target]? = some landed ∧
      landed.sortText = keyAt front.reverse m back target := by
    have hinside : target < (front ++ m :: back).length := by
      rw [List.length_append, List.length_cons]
      omega
    rw [keyAt, List.reverse_reverse, List.getElem?_map, List.getElem?_eq_getElem hinside]
    exact ⟨_, rfl, rfl⟩
  obtain ⟨landed, hlanded, hkey⟩ := hlanded
  have hremove {β : Type} (f : Marked → β) :
      removeAt? ((front ++ m :: back).map f) front.length = some ((front ++ back).map f) := by
    simp [removeAt?, List.eraseIdx_append_of_length_le]
  have hinsert {β : Type} (f : Marked → β) (n : Marked) :
      insertAt? ((front ++ back).map f) target (f n) =
        some (((front ++ back).insertIdx target n).map f) := by
    rw [insertAt?, if_pos (by simpa using hle), List.map_insertIdx]
  have hentries := hinsert (·.entry) (movedTo front.reverse m back target)
  have hmarks := hinsert (·.touched) (movedTo front.reverse m back target)
  dsimp only [movedTo] at hentries hmarks
  simp only [act?, ofMarked, hentry, hlast, hremove, hlanded, Option.bind_eq_bind, Option.bind_some,
    ← htarget, hkey, hentries, hmarks, movedTo]
  rfl

theorem round?_ofMarked (rule : Rule) :
    (ofMarked (front ++ m :: back) front.length deleted deferred).round? rule =
      if rule.actsOn m then
        ((ofMarked (front ++ m :: back) front.length deleted deferred).act? rule.action).map
          (rule.processMany, ·)
      else some (true, ofMarked (front ++ m :: back) (front.length + 1) deleted deferred) := by
  have hmark : ((front ++ m :: back).map (·.touched))[front.length]? = some m.touched := by simp
  have hentry : ((front ++ m :: back).map (·.entry))[front.length]? = some m.entry := by simp
  have hskip : (m.touched || !rule.picks m.entry) = !rule.actsOn m := by simp [actsOn]
  simp only [round?, ofMarked, hmark, hentry, Option.bind_eq_bind, Option.bind_some, hskip]
  cases rule.actsOn m with
  | false => rfl
  | true => cases act? rule.action _ <;> rfl

end Actions

/-! ### Rounds stay inside the lists -/

/-- Lists of one length, with the index and the places of deleted entries inside. -/
structure Sound (s : Pass) : Prop where
  level : s.entries.length = s.marks.length
  index_le : s.index ≤ s.entries.length
  falling : s.deleted.Pairwise (· > ·)
  deleted_lt : ∀ place ∈ s.deleted, place < s.index

/-- How many rounds there can be: one for each entry from the index on, and one more for each that
is not touched. -/
def roundsLeft (s : Pass) : Nat := s.entries.length - s.index + s.marks.count false

theorem sound_ofMarked_iff (l : List Marked) (index : Nat) (deleted : List Nat)
    (deferred : DeferredMap) :
    (ofMarked l index deleted deferred).Sound ↔
      index ≤ l.length ∧ deleted.Pairwise (· > ·) ∧ ∀ place ∈ deleted, place < index := by
  constructor
  · rintro ⟨-, hindex, hfalling, hlt⟩
    exact ⟨by simpa [ofMarked] using hindex, hfalling, hlt⟩
  · rintro ⟨hindex, hfalling, hlt⟩
    exact ⟨by simp [ofMarked], by simpa [ofMarked] using hindex, hfalling, hlt⟩

theorem roundsLeft_ofMarked (l : List Marked) (index : Nat) (deleted : List Nat)
    (deferred : DeferredMap) :
    (ofMarked l index deleted deferred).roundsLeft = l.length - index + untouched l := by
  have hcount : (l.map (·.touched)).count false = untouched l := by
    rw [List.count, List.countP_map, untouched]
    exact List.countP_congr fun m _ => by simp
  rw [roundsLeft, ofMarked, List.length_map, hcount]

theorem Sound.exists_split {s : Pass} (h : s.Sound) (hindex : s.index < s.entries.length) :
    ∃ front m back deleted deferred,
      s = ofMarked (front ++ m :: back) front.length deleted deferred := by
  have hlength : (mark s.entries s.marks).length = s.entries.length := by
    rw [← List.length_map (·.entry), map_entry_mark h.level]
  have hsplit : mark s.entries s.marks = (mark s.entries s.marks).take s.index ++
      (mark s.entries s.marks)[s.index] :: (mark s.entries s.marks).drop (s.index + 1) := by
    rw [List.getElem_cons_drop, List.take_append_drop]
  have hfront : ((mark s.entries s.marks).take s.index).length = s.index := by
    rw [List.length_take]
    omega
  refine ⟨(mark s.entries s.marks).take s.index, (mark s.entries s.marks)[s.index],
    (mark s.entries s.marks).drop (s.index + 1), s.deleted, s.deferred, ?_⟩
  rw [← hsplit, hfront, ofMarked_mark h.level]

section Act

variable {front : List Marked} {m : Marked} {back : List Marked} {deleted : List Nat}
  {deferred : DeferredMap} (hm : m.touched = false)

include hm

theorem roundsLeft_lt {l : List Marked} {index : Nat} {deleted' : List Nat}
    {deferred' : DeferredMap} (hcount : untouched l = untouched (front ++ back))
    (hlength : l.length ≤ index + back.length + 1) :
    (ofMarked l index deleted' deferred').roundsLeft <
      (ofMarked (front ++ m :: back) front.length deleted deferred).roundsLeft := by
  have hfirst : untouched (front ++ m :: back) = untouched (front ++ back) + 1 := by
    simp [untouched, hm]
    omega
  have hleft : (front ++ m :: back).length - front.length = back.length + 1 := by simp
  rw [roundsLeft_ofMarked, roundsLeft_ofMarked, hcount, hfirst, hleft]
  omega

theorem Sound.act {action : RuleEdit}
    (h : (ofMarked (front ++ m :: back) front.length deleted deferred).Sound) :
    ∃ t, (ofMarked (front ++ m :: back) front.length deleted deferred).act? action = some t ∧
      t.Sound ∧
        t.roundsLeft < (ofMarked (front ++ m :: back) front.length deleted deferred).roundsLeft := by
  obtain ⟨-, hfalling, hlt⟩ := (sound_ofMarked_iff ..).mp h
  have hlt' (k : Nat) : ∀ place ∈ deleted, place < front.length + k := fun place hplace =>
    Nat.lt_add_right k (hlt place hplace)
  cases action with
  | delete =>
    refine ⟨_, act?_delete .., (sound_ofMarked_iff ..).mpr ⟨by simp, ?_, ?_⟩,
      roundsLeft_lt hm (by simp [untouched]) (by simp; omega)⟩
    · exact List.pairwise_cons.mpr ⟨hlt, hfalling⟩
    · exact List.forall_mem_cons.mpr ⟨Nat.lt_succ_self _, hlt' 1⟩
  | patch p =>
    exact ⟨_, act?_patch .., (sound_ofMarked_iff ..).mpr ⟨by simp, hfalling, hlt' 1⟩,
      roundsLeft_lt hm (by simp [untouched]) (by simp; omega)⟩
  | duplicate placement p =>
    cases placement with
    | before =>
      exact ⟨_, act?_duplicate_before ..,
        (sound_ofMarked_iff ..).mpr ⟨by simp, hfalling, hlt' 2⟩,
        roundsLeft_lt hm (by simp [untouched]) (by simp; omega)⟩
    | after =>
      exact ⟨_, act?_duplicate_after ..,
        (sound_ofMarked_iff ..).mpr ⟨by simp, hfalling, hlt' 2⟩,
        roundsLeft_lt hm (by simp [untouched]) (by simp; omega)⟩
  | move offset =>
    have hle := clampOffset_le front.length offset (front.length + back.length)
    have hact := act?_move front m back deleted deferred offset _ rfl
    generalize clampOffset front.length offset (front.length + back.length) = target at hle hact
    have hlength : ((front ++ back).insertIdx target
        (movedTo front.reverse m back target)).length = front.length + back.length + 1 := by
      rw [List.length_insertIdx_of_le_length (by simpa using hle), List.length_append]
    refine ⟨_, hact, (sound_ofMarked_iff ..).mpr ⟨?_, hfalling, ?_⟩,
      roundsLeft_lt hm (untouched_insertIdx ..) ?_⟩
    · rw [hlength]
      split <;> omega
    · split
      · exact hlt' 1
      · exact hlt
    · rw [hlength]
      split <;> omega

end Act

/-- A round inside the lists succeeds, and brings the end of the pass nearer. -/
theorem Sound.round {s : Pass} (rule : Rule) (h : s.Sound) (hindex : s.index < s.entries.length) :
    ∃ goesOn t, s.round? rule = some (goesOn, t) ∧ t.Sound ∧ t.roundsLeft < s.roundsLeft := by
  obtain ⟨front, m, back, deleted, deferred, rfl⟩ := h.exists_split hindex
  rw [round?_ofMarked]
  by_cases hacts : rule.actsOn m = true
  · have hm : m.touched = false := by
      rw [actsOn, Bool.and_eq_true] at hacts
      simpa using hacts.1
    obtain ⟨t, hact, hsound, hleft⟩ := h.act hm
    rw [if_pos hacts, hact]
    exact ⟨_, t, rfl, hsound, hleft⟩
  · obtain ⟨-, hfalling, hlt⟩ := (sound_ofMarked_iff ..).mp h
    rw [if_neg hacts]
    refine ⟨_, _, rfl, (sound_ofMarked_iff ..).mpr ⟨by simp, hfalling, ?_⟩, ?_⟩
    · exact fun place hplace => Nat.lt_succ_of_lt (hlt place hplace)
    · rw [roundsLeft_ofMarked, roundsLeft_ofMarked]
      simp
      omega

theorem Reaches.sound {rule : Rule} {n : Nat} {s t : Pass} (hreach : Reaches rule n s t)
    (h : s.Sound) : t.Sound ∧ n + t.roundsLeft ≤ s.roundsLeft := by
  induction hreach with
  | refl s => exact ⟨h, by omega⟩
  | round inside hround _ ih =>
    obtain ⟨_, _, hround', hsound, hleft⟩ := h.round _ inside
    cases hround.symm.trans hround'
    obtain ⟨hsound', hleft'⟩ := ih hsound
    exact ⟨hsound', by omega⟩

/-! ### Taking deleted entries out -/

theorem removeAll?_eq {α : Type} (places : List Nat) (l : List α)
    (hfalling : places.Pairwise (· > ·)) (hlt : ∀ place ∈ places, place < l.length) :
    removeAll? places l = some (places.foldl List.eraseIdx l) := by
  induction places generalizing l with
  | nil => rfl
  | cons place places ih =>
    obtain ⟨hfirst, hfalling⟩ := List.pairwise_cons.mp hfalling
    obtain ⟨hplace, -⟩ := List.forall_mem_cons.mp hlt
    rw [removeAll?, removeAt?, if_pos hplace]
    refine ih _ hfalling fun other hother => ?_
    have hbelow := hfirst other hother
    rw [List.length_eraseIdx_of_lt hplace]
    omega

theorem foldl_eraseIdx_map {α β : Type} (f : α → β) (places : List Nat) (l : List α) :
    places.foldl List.eraseIdx (l.map f) = (places.foldl List.eraseIdx l).map f := by
  induction places generalizing l with
  | nil => rfl
  | cons place places ih => rw [List.foldl_cons, List.foldl_cons, List.eraseIdx_map, ih]

theorem foldl_eraseIdx_append {α : Type} (places : List Nat) (front back : List α)
    (hfalling : places.Pairwise (· > ·)) (hlt : ∀ place ∈ places, place < front.length) :
    places.foldl List.eraseIdx (front ++ back) = places.foldl List.eraseIdx front ++ back := by
  induction places generalizing front with
  | nil => rfl
  | cons place places ih =>
    obtain ⟨hfirst, hfalling⟩ := List.pairwise_cons.mp hfalling
    obtain ⟨hplace, -⟩ := List.forall_mem_cons.mp hlt
    rw [List.foldl_cons, List.foldl_cons, List.eraseIdx_append_of_lt_length hplace]
    refine ih _ hfalling fun other hother => ?_
    have hbelow := hfirst other hother
    rw [List.length_eraseIdx_of_lt hplace]
    omega

def kept (s : Pass) : List Marked := s.deleted.foldl List.eraseIdx (mark s.entries s.marks)

theorem kept_ofMarked (l : List Marked) (index : Nat) (deleted : List Nat)
    (deferred : DeferredMap) :
    (ofMarked l index deleted deferred).kept = deleted.foldl List.eraseIdx l := by
  rw [kept, ofMarked, mark_map]

theorem Sound.removeDeleted? {s : Pass} (h : s.Sound) :
    s.removeDeleted? = some (s.kept.map (·.entry), s.kept.map (·.touched)) := by
  have hinside : ∀ place ∈ s.deleted, place < s.entries.length := fun place hplace =>
    Nat.lt_of_lt_of_le (h.deleted_lt place hplace) h.index_le
  rw [Pass.removeDeleted?, removeAll?_eq _ _ h.falling hinside,
    removeAll?_eq _ _ h.falling (h.level ▸ hinside), kept, ← foldl_eraseIdx_map,
    ← foldl_eraseIdx_map, map_entry_mark h.level, map_touched_mark h.level]
  rfl

/-! ### The same list as without indices -/

theorem act?_eq_act (action : RuleEdit) (front : List Marked) (m : Marked) (back : List Marked)
    (deleted : List Nat) (deferred : DeferredMap) (hdelete : action ≠ .delete)
    (hfits : ∀ offset, action = .move offset → front.length + back.length < 2 ^ 63) :
    (ofMarked (front ++ m :: back) front.length deleted deferred).act? action =
      some (ofMarked (act action front.reverse m back deferred).list
        (act action front.reverse m back deferred).passed.length deleted
        (act action front.reverse m back deferred).deferred) := by
  cases action with
  | delete => exact absurd rfl hdelete
  | patch p =>
    rw [act?_patch, list_act_patch, List.reverse_reverse]
    simp [act]
  | duplicate placement p =>
    cases placement with
    | before =>
      rw [act?_duplicate_before, list_act_duplicate_before, List.reverse_reverse]
      simp [act]
    | after =>
      rw [act?_duplicate_after, list_act_duplicate_after, List.reverse_reverse]
      simp [act]
  | move offset =>
    have hlanding := clampOffset_eq_landing front.length offset (front.length + back.length)
      (Nat.le_add_right ..) (hfits offset rfl)
    rw [act?_move front m back deleted deferred offset _ hlanding.symm, list_act_move,
      List.reverse_reverse, List.length_reverse]
    simp only [act, List.length_reverse]
    split
    · rename_i hle
      rw [List.length_insertIdx_of_le_length (by simp), List.length_reverse]
    · rw [List.length_reverse]

/-- Whether the entries in front of the index, less the deleted ones, are those that a pass without
indices has passed. Where places are clamped to 64 bits, the list has to fit in. -/
structure Follows (rule : Rule) (front : List Marked) (deleted : List Nat)
    (passed coming : List Marked) : Prop where
  falling : deleted.Pairwise (· > ·)
  deleted_lt : ∀ place ∈ deleted, place < front.length
  kept : deleted.foldl List.eraseIdx front = passed.reverse
  none_deleted : rule.action ≠ .delete → deleted = []
  fits : ∀ offset, rule.action = .move offset → front.length + coming.length ≤ 2 ^ 63

section Follows

variable {rule : Rule} {front : List Marked} {deleted : List Nat} {passed coming : List Marked}

theorem Follows.sound (h : Follows rule front deleted passed coming) (deferred : DeferredMap) :
    (ofMarked (front ++ coming) front.length deleted deferred).Sound :=
  (sound_ofMarked_iff ..).mpr ⟨by simp, h.falling, h.deleted_lt⟩

theorem Follows.kept_append (h : Follows rule front deleted passed coming) :
    deleted.foldl List.eraseIdx (front ++ coming) = passed.reverse ++ coming := by
  rw [foldl_eraseIdx_append _ _ _ h.falling h.deleted_lt, h.kept]

variable {m : Marked}

theorem Follows.skip (h : Follows rule front deleted passed (m :: coming)) :
    Follows rule (front ++ [m]) deleted (m :: passed) coming where
  falling := h.falling
  deleted_lt place hplace := by
    rw [List.length_append]
    exact Nat.lt_add_right 1 (h.deleted_lt place hplace)
  kept := by rw [foldl_eraseIdx_append _ _ _ h.falling h.deleted_lt, h.kept, List.reverse_cons]
  none_deleted := h.none_deleted
  fits offset hmove := by
    have hlength := h.fits offset hmove
    rw [List.length_cons] at hlength
    rw [List.length_append, List.length_singleton]
    omega

theorem Follows.act (h : Follows rule front deleted passed (m :: coming)) (deferred : DeferredMap) :
    ∃ front' deleted',
      (ofMarked (front ++ m :: coming) front.length deleted deferred).act? rule.action =
        some (ofMarked (front' ++ (Rule.act rule.action passed m coming deferred).coming)
          front'.length deleted' (Rule.act rule.action passed m coming deferred).deferred) ∧
      Follows rule front' deleted' (Rule.act rule.action passed m coming deferred).passed
        (Rule.act rule.action passed m coming deferred).coming := by
  by_cases hdelete : rule.action = .delete
  · -- The deleted entry stays in its place for now.
    refine ⟨front ++ [⟨m.entry, true⟩], front.length :: deleted, ?_, ?_⟩
    · rw [hdelete, act?_delete, List.length_append, List.append_assoc]
      rfl
    · refine ⟨List.pairwise_cons.mpr ⟨h.deleted_lt, h.falling⟩, ?_, ?_, ?_, ?_⟩
      · rw [List.length_append]
        exact List.forall_mem_cons.mpr ⟨Nat.lt_succ_self _,
          fun place hplace => Nat.lt_add_right 1 (h.deleted_lt place hplace)⟩
      · rw [List.foldl_cons, List.eraseIdx_append_of_length_le (Nat.le_refl _), hdelete]
        rw [Nat.sub_self, List.eraseIdx_cons_zero, List.append_nil]
        exact h.kept
      · exact fun hother => absurd hdelete hother
      · exact fun offset hmove => absurd (hdelete.symm.trans hmove) (by simp)
  · have hnone := h.none_deleted hdelete
    have hfront : front = passed.reverse := by
      have hkept := h.kept
      rwa [hnone] at hkept
    have hfits (offset : Int) (hmove : rule.action = .move offset) :
        front.length + coming.length < 2 ^ 63 := h.fits offset hmove
    have hact := act?_eq_act rule.action front m coming deleted deferred hdelete hfits
    rw [hfront, List.reverse_reverse] at hact
    refine ⟨(Rule.act rule.action passed m coming deferred).passed.reverse, [], ?_, ?_⟩
    · rw [hfront, hact, List.length_reverse, hnone]
      rfl
    · refine ⟨List.Pairwise.nil, by simp, rfl, fun _ => rfl, fun offset hmove => ?_⟩
      have hlength := congrArg List.length (list_act_move passed m coming deferred offset)
      rw [Step.list, ← hmove, List.length_insertIdx_of_le_length
        (by simpa using landing_le passed.length offset (passed.length + coming.length)),
        List.length_append, List.length_append] at hlength
      have hbound := hfits offset hmove
      rw [hfront] at hbound
      omega

end Follows

theorem EndsWith.done {rule : Rule} {s : Pass} (h : s.entries.length ≤ s.index) :
    s.EndsWith rule s := ⟨0, s, .refl s, Or.inl ⟨h, rfl⟩⟩

theorem EndsWith.stop {rule : Rule} {s final : Pass} (hindex : s.index < s.entries.length)
    (hround : s.round? rule = some (false, final)) : s.EndsWith rule final :=
  ⟨0, s, .refl s, Or.inr ⟨hindex, hround⟩⟩

theorem EndsWith.round {rule : Rule} {s t final : Pass} (hindex : s.index < s.entries.length)
    (hround : s.round? rule = some (true, t)) (h : t.EndsWith rule final) :
    s.EndsWith rule final := by
  obtain ⟨n, u, hreach, hend⟩ := h
  exact ⟨n + 1, u, .round hindex hround hreach, hend⟩

/-- A pass by index ends with the list that a pass without indices leaves, but for the deleted
entries. -/
theorem endsWith_scan (rule : Rule) (passed coming : List Marked) (deferred : DeferredMap)
    (front : List Marked) (deleted : List Nat) (h : Follows rule front deleted passed coming) :
    ∃ final, (ofMarked (front ++ coming) front.length deleted deferred).EndsWith rule final ∧
      (final.kept, final.deferred) = scan rule passed coming deferred := by
  fun_induction scan rule passed coming deferred generalizing front deleted with
  | case1 passed deferred =>
    refine ⟨_, .done (by simp [ofMarked]), ?_⟩
    · rw [kept_ofMarked, h.kept_append, List.append_nil]
      rfl
  | case2 passed deferred m coming hacts step hmany ih =>
    obtain ⟨front', deleted', hact, hfollows⟩ := h.act deferred
    obtain ⟨final, hends, hfinal⟩ := ih front' deleted' hfollows
    refine ⟨final, hends.round (by simp [ofMarked]) ?_, hfinal⟩
    rw [round?_ofMarked, if_pos hacts, hact, hmany]
    rfl
  | case3 passed deferred m coming hacts step hmany =>
    obtain ⟨front', deleted', hact, hfollows⟩ := h.act deferred
    refine ⟨ofMarked (front' ++ step.coming) front'.length deleted' step.deferred,
      .stop (by simp [ofMarked]) ?_, ?_⟩
    · rw [round?_ofMarked, if_pos hacts, hact, Bool.eq_false_iff.mpr hmany]
      rfl
    · rw [kept_ofMarked, hfollows.kept_append]
      rfl
  | case4 passed deferred m coming hacts ih =>
    obtain ⟨final, hends, hfinal⟩ := ih (front ++ [m]) deleted h.skip
    rw [List.append_assoc, List.length_append] at hends
    refine ⟨final, hends.round (by simp [ofMarked]) ?_, hfinal⟩
    rw [round?_ofMarked, if_neg hacts]
    rfl

/-! ### Whole passes -/

def start (entries : List Entry) (marks : List Bool) (deferred : DeferredMap) : Pass :=
  { entries, marks, deferred }

theorem sound_start {entries : List Entry} {marks : List Bool} (deferred : DeferredMap)
    (h : entries.length = marks.length) : (start entries marks deferred).Sound :=
  ⟨h, Nat.zero_le _, List.Pairwise.nil, fun _ hplace => absurd hplace List.not_mem_nil⟩

theorem EndsWith.sound {rule : Rule} {s final : Pass} (hends : s.EndsWith rule final)
    (h : s.Sound) : final.Sound := by
  obtain ⟨n, t, hreach, ⟨-, rfl⟩ | ⟨hindex, hround⟩⟩ := hends
  · exact (hreach.sound h).1
  · obtain ⟨_, _, hround', hsound, -⟩ := (hreach.sound h).1.round rule hindex
    cases hround.symm.trans hround'
    exact hsound

/-- There are never infinitely many rounds. -/
theorem Sound.ends {s : Pass} (rule : Rule) (h : s.Sound) : ∃ final, s.EndsWith rule final := by
  generalize hleft : s.roundsLeft = left
  induction left using Nat.strongRecOn generalizing s with
  | ind left ih =>
    by_cases hindex : s.index < s.entries.length
    · obtain ⟨goesOn, t, hround, hsound, hless⟩ := h.round rule hindex
      cases goesOn with
      | false => exact ⟨t, .stop hindex hround⟩
      | true =>
        obtain ⟨final, hends⟩ := ih t.roundsLeft (hleft ▸ hless) hsound rfl
        exact ⟨final, hends.round hindex hround⟩
    · exact ⟨s, .done (Nat.le_of_not_lt hindex)⟩

theorem EndsWith.unique {rule : Rule} {s final final' : Pass} (h : s.EndsWith rule final)
    (h' : s.EndsWith rule final') : final = final' := by
  obtain ⟨n, t, hreach, hend⟩ := h
  obtain ⟨n', t', hreach', hend'⟩ := h'
  induction hreach generalizing n' with
  | refl s =>
    cases hreach' with
    | refl =>
      rcases hend with ⟨hout, rfl⟩ | ⟨hin, hround⟩
      · rcases hend' with ⟨-, rfl⟩ | ⟨hin, -⟩
        · rfl
        · omega
      · rcases hend' with ⟨hout, -⟩ | ⟨-, hround'⟩
        · omega
        · cases hround.symm.trans hround'
          rfl
    | round inside hround' =>
      rcases hend with ⟨hout, -⟩ | ⟨-, hround⟩
      · omega
      · cases hround.symm.trans hround'
  | round inside hround _ ih =>
    cases hreach' with
    | refl =>
      rcases hend' with ⟨hout, -⟩ | ⟨-, hround'⟩
      · omega
      · cases hround.symm.trans hround'
    | round _ hround' hrest' =>
      cases hround.symm.trans hround'
      exact ih hend _ hrest'

theorem follows_start (rule : Rule) (l : List Marked)
    (hfits : ∀ offset, rule.action = .move offset → l.length ≤ 2 ^ 63) :
    Follows rule [] [] [] l where
  falling := List.Pairwise.nil
  deleted_lt _ hplace := absurd hplace List.not_mem_nil
  kept := rfl
  none_deleted _ := rfl
  fits offset hmove := by
    rw [List.length_nil, Nat.zero_add]
    exact hfits offset hmove

end Pass

open Pass

/-- A pass by index over entries and marks of one length keeps them at one length, ends after at
most two rounds for each entry, and every access of a round or of the removal at the end is inside
its list. It leaves what a pass over the marked list leaves; a move lands on the place it is asked
for, or on the first or last one. -/
theorem indexed_pass_stays_inside (rule : Rule) (entries : List Entry) (marks : List Bool)
    (deferred : DeferredMap) (h : entries.length = marks.length) :
    (∀ n s, Reaches rule n (start entries marks deferred) s →
        s.entries.length = s.marks.length ∧ n ≤ 2 * entries.length ∧
          (s.index < s.entries.length → ∃ goesOn t, s.round? rule = some (goesOn, t) ∧
            t.entries.length = t.marks.length)) ∧
      (∃ final entries' marks',
        (∀ other, (start entries marks deferred).EndsWith rule other ↔ other = final) ∧
          final.removeDeleted? = some (entries', marks') ∧ entries'.length = marks'.length ∧
          (entries.length ≤ 2 ^ 63 →
            (mark entries' marks', final.deferred) = rule.apply (mark entries marks) deferred)) ∧
      ∀ (index last : Nat) (offset : Int), index ≤ last → last < 2 ^ 63 →
        clampOffset index offset last = landing index offset last ∧
          (landing index offset last : Int) = max 0 (min (index + offset) last) := by
  have hsound := sound_start deferred h
  refine ⟨fun n s hreach => ?_, ?_, fun index last offset hindex hlast =>
    ⟨clampOffset_eq_landing index offset last hindex hlast, landing_eq_clamp index offset last⟩⟩
  · obtain ⟨hreached, hrounds⟩ := hreach.sound hsound
    refine ⟨hreached.level, ?_, fun hindex => ?_⟩
    · have hcount : marks.count false ≤ marks.length := List.count_le_length
      have hleft : (start entries marks deferred).roundsLeft =
          entries.length - 0 + marks.count false := rfl
      omega
    · obtain ⟨goesOn, t, hround, hnext, -⟩ := hreached.round rule hindex
      exact ⟨goesOn, t, hround, hnext.level⟩
  · obtain ⟨final, hends⟩ := hsound.ends rule
    have hfinal := hends.sound hsound
    refine ⟨final, _, _, fun other => ⟨fun hother => hother.unique hends, fun hother =>
      hother ▸ hends⟩, hfinal.removeDeleted?, by simp, fun hfits => ?_⟩
    have hlength : (mark entries marks).length ≤ 2 ^ 63 := by
      rw [← List.length_map (·.entry), map_entry_mark h]
      exact hfits
    obtain ⟨final', hends', hscan⟩ := endsWith_scan rule [] (mark entries marks) deferred [] []
      (follows_start rule _ fun _ _ => hlength)
    have hstart : ofMarked (mark entries marks) 0 [] deferred = start entries marks deferred :=
      ofMarked_mark (s := start entries marks deferred) h
    rw [List.nil_append, List.length_nil, hstart] at hends'
    rw [mark_map, hends.unique hends']
    exact hscan

/-! ### Logs at the end -/

def logEntries : List Entry :=
  ["log", "warn", "logError"].map fun name => { name, kind := .method, sortText := "11" }

/-- A rule that moves logs as far down as can be written. -/
def logRule : Rule where
  pattern := .wildcard "log" ""
  action := .move (2 ^ 63 - 1)
  processMany := true

theorem logs_end_behind_warnings :
    logEntries.length = (List.replicate 3 false).length ∧
      ∃ final entries marks,
        (start logEntries (List.replicate 3 false) ∅).EndsWith logRule final ∧
          final.removeDeleted? = some (entries, marks) ∧
          entries.map (·.name) = ["warn", "log", "logError"] := by
  obtain ⟨-, ⟨final, entries, marks, hends, hremove, hlevel, hscan⟩, -⟩ :=
    indexed_pass_stays_inside logRule logEntries (List.replicate 3 false) ∅ rfl
  refine ⟨rfl, final, entries, marks, (hends final).mpr rfl, hremove, ?_⟩
  have hlist := congrArg (fun pass => pass.1.map (·.entry.name)) (hscan (by decide))
  have hnames : entries.map (·.name) = (mark entries marks).map (·.entry.name) := by
    conv => lhs; rw [← map_entry_mark hlevel]
    rw [List.map_map]
    rfl
  rw [hnames]
  refine hlist.trans ?_
  cbv

end CodeCompletion.Rule
