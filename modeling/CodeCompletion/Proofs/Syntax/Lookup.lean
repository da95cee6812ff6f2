import CodeCompletion.Proofs.Syntax.Links

/-!
# Nodes at a position

A look-up goes down from the root to the first child that is accepted. In a tree whose nodes lie
inside their parents, side by side, this never leads astray: every accepted node is met on the way,
or it stands behind a sibling that was met and had to touch it. For the bytes of the text there is
no such sibling; a position between two nodes belongs to the left one.
-/

namespace CodeCompletion

theorem Span.touches_of_encloses (pos : Nat) (outer inner : Span)
    (h : outer.encloses inner = true) (hpos : inner.touches pos = true) :
    outer.touches pos = true := by
  simp only [encloses, touches, Bool.and_eq_true, decide_eq_true_eq] at h hpos ⊢
  omega

theorem Span.contains_of_encloses (pos : Nat) (outer inner : Span)
    (h : outer.encloses inner = true) (hpos : inner.contains pos = true) :
    outer.contains pos = true := by
  simp only [encloses, contains, Bool.and_eq_true, decide_eq_true_eq] at h hpos ⊢
  omega

namespace SyntaxTree

/-! ### Spans of built trees -/

/-- Nodes lie inside their parents, and none ends before it starts. -/
structure Nested (t : SyntaxTree) : Prop extends t.Linked where
  inside : ∀ c p, t.parent? c = some p →
    ∀ outer ∈ t.span? p, ∀ inner ∈ t.span? c, outer.encloses inner = true
  forward : ∀ id, ∀ s ∈ t.span? id, s.start ≤ s.stop

theorem span?_eq_some (t : SyntaxTree) (id : Nat) (h : id < t.size) :
    ∃ s, t.span? id = some s :=
  ⟨_, congrArg (Option.map _) (Array.getElem?_eq_getElem h)⟩

theorem lt_size_of_span? (t : SyntaxTree) (id : Nat) (s : Span) (h : t.span? id = some s) :
    id < t.size := by
  obtain ⟨node, hnode, _⟩ := Option.map_eq_some_iff.mp h
  exact (Array.getElem?_eq_some_iff.mp hnode).1

theorem nested_empty : SyntaxTree.empty.Nested where
  toLinked := linked_empty
  inside _ _ h := nomatch h
  forward id s h := by simp [span?, node?, empty] at h

theorem nested_root (kind : SyntaxKind) (span : Span) (hforward : span.start ≤ span.stop) :
    (⟨#[⟨kind, span, none, []⟩]⟩ : SyntaxTree).Nested where
  toLinked := linked_root kind span
  inside c p h := by
    have hlt := lt_size_of_parent? _ c p h
    have hzero : c = 0 := Nat.lt_one_iff.mp hlt
    rw [hzero] at h
    cases h
  forward id s h := by
    have hlt := lt_size_of_span? _ id s h
    have hzero : id = 0 := Nat.lt_one_iff.mp hlt
    rw [hzero] at h
    cases h
    exact hforward

theorem nested_link (b : TreeDraft) (p : Nat) (parent : SyntaxNode) (kind : SyntaxKind)
    (span : Span) (hparent : b.nodes[p]? = some parent) (h : b.tree.Nested)
    (hlinked : (b.link p parent kind span).tree.Linked)
    (hinside : parent.span.encloses span = true) (hforward : span.start ≤ span.stop) :
    (b.link p parent kind span).tree.Nested where
  toLinked := hlinked
  inside c q hq outer houter inner hinner := by
    have hp : p < b.nodes.size := (Array.getElem?_eq_some_iff.mp hparent).1
    rw [parent?_link b p parent kind span hparent] at hq
    rw [span?_link b p parent kind span hparent] at houter hinner
    by_cases hc : c = b.nodes.size
    · rw [if_pos hc] at hq hinner
      cases hq
      cases hinner
      rw [if_neg (Nat.ne_of_lt hp), span?, node?, TreeDraft.tree, hparent] at houter
      cases houter
      exact hinside
    · rw [if_neg hc] at hq hinner
      have hsize : c < b.nodes.size := lt_size_of_parent? b.tree c q hq
      rw [if_neg (Nat.ne_of_lt (Nat.lt_trans (h.parent_lt c q hq) hsize))] at houter
      exact h.inside c q hq outer houter inner hinner
  forward id s hs := by
    rw [span?_link b p parent kind span hparent] at hs
    split at hs
    · cases hs
      exact hforward
    · exact h.forward id s hs

theorem nested_append (b b' : TreeDraft) (kind : SyntaxKind) (span : Span) (h : b.tree.Nested)
    (hforward : span.start ≤ span.stop) (happend : b.append kind span = .ok b') :
    b'.tree.Nested := by
  have hlinked := linked_append b b' kind span h.toLinked happend
  cases hopened : b.opened with
  | nil =>
    obtain ⟨_, rfl⟩ := (TreeDraft.append_of_closed b b' kind span hopened).mp happend
    exact nested_root kind span hforward
  | cons p rest =>
    cases hparent : b.nodes[p]? with
    | none =>
      rw [TreeDraft.append, hopened] at happend
      simp [hparent] at happend
    | some parent =>
      obtain ⟨hinside, _, rfl⟩ :=
        (TreeDraft.append_eq_ok_iff b b' p rest parent kind span hopened hparent).mp happend
      exact nested_link b p parent kind span hparent h hlinked hinside hforward

theorem nested_build (steps : List BuildStep) (t : SyntaxTree) (h : build steps = .ok t)
    (hforward : ∀ s ∈ steps, ∀ node ∈ s.node?, node.2.start ≤ node.2.stop) : t.Nested :=
  run_preserves Nested steps
    (fun s hs node hnode b b' hb =>
      nested_append b b' node.1 node.2 hb (hforward s hs node hnode))
    TreeDraft.start _ nested_empty ((build_eq_ok_iff_run steps t).mp h)

/-! ### Ancestors -/

namespace Linked

variable {t : SyntaxTree} (h : t.Linked)

include h

theorem self_mem_ancestors (id : Nat) : id ∈ t.ancestors id := by
  cases hp : t.parent? id with
  | none =>
    rw [ancestors, hp]
    exact List.mem_singleton_self id
  | some p =>
    rw [h.ancestors_of_parent id p hp]
    exact List.mem_cons_self ..

theorem mem_ancestors_of_parent (a id p : Nat) (hp : t.parent? id = some p)
    (ha : a ∈ t.ancestors p) : a ∈ t.ancestors id := by
  rw [h.ancestors_of_parent id p hp]
  exact List.mem_cons_of_mem _ ha

theorem mem_ancestors_cases (a id : Nat) (ha : a ∈ t.ancestors id) :
    a = id ∨ ∃ p, t.parent? id = some p ∧ a ∈ t.ancestors p := by
  cases hp : t.parent? id with
  | none =>
    rw [ancestors, hp] at ha
    exact Or.inl (List.mem_singleton.mp ha)
  | some p =>
    rw [h.ancestors_of_parent id p hp, List.mem_cons] at ha
    exact ha.imp_right fun hrest => ⟨p, rfl, hrest⟩

theorem mem_ancestors_trans (a b c : Nat) (hab : a ∈ t.ancestors b) (hbc : b ∈ t.ancestors c) :
    a ∈ t.ancestors c := by
  induction c using Nat.strongRecOn with
  | _ c ih =>
    rcases h.mem_ancestors_cases b c hbc with rfl | ⟨p, hp, hb⟩
    · exact hab
    · exact h.mem_ancestors_of_parent a c p hp (ih p (h.parent_lt c p hp) hb)

theorem exists_child_towards (a n : Nat) (ha : a ∈ t.ancestors n) :
    a = n ∨ ∃ c ∈ t.children a, c ∈ t.ancestors n := by
  induction n using Nat.strongRecOn with
  | _ n ih =>
    rcases h.mem_ancestors_cases a n ha with heq | ⟨p, hp, hrest⟩
    · exact Or.inl heq
    · right
      rcases ih p (h.parent_lt n p hp) hrest with rfl | ⟨c, hc, hcp⟩
      · exact ⟨n, (h.mem_children_iff a n).mpr hp, h.self_mem_ancestors n⟩
      · exact ⟨c, hc, h.mem_ancestors_of_parent c n p hp hcp⟩

theorem root_mem_ancestors (n : Nat) (hn : n < t.size) : 0 ∈ t.ancestors n :=
  List.mem_of_getLast? (h.ancestors_chain n hn).2.2

end Linked

/-! ### Siblings -/

/-- One node stands before another among the children of their parent. -/
def Precedes (t : SyntaxTree) (a b : Nat) : Prop := ∃ p, [a, b].Sublist (t.children p)

namespace Nested

variable {t : SyntaxTree} (h : t.Nested)

include h

theorem stop_le_start (a b : Nat) (hab : t.Precedes a b) (sa sb : Span)
    (ha : t.span? a = some sa) (hb : t.span? b = some sb) : sa.stop ≤ sb.start := by
  obtain ⟨p, hsub⟩ := hab
  let Before (a b : Nat) : Prop :=
    ∃ sa sb, t.span? a = some sa ∧ t.span? b = some sb ∧ sa.stop ≤ sb.start
  have htrans : ∀ {a b c : Nat}, Before a b → Before b c → Before a c := by
    rintro a b c ⟨sa, sb, ha, hb, hle⟩ ⟨sb', sc, hb', hc, hle'⟩
    rw [hb] at hb'
    cases hb'
    have hforward := h.forward b sb hb
    exact ⟨sa, sc, ha, hc, by omega⟩
  have hinst : IsTrans Nat Before := ⟨fun _ _ _ => htrans⟩
  have hchain : (t.children p).IsChain Before := by
    refine (h.ordered p).imp_of_mem_imp fun a b ha hb hle => ?_
    obtain ⟨sa, hsa⟩ := t.span?_eq_some a (h.bounds_of_mem_children p a ha).2
    obtain ⟨sb, hsb⟩ := t.span?_eq_some b (h.bounds_of_mem_children p b hb).2
    exact ⟨sa, sb, hsa, hsb, hle sa hsa sb hsb⟩
  have hpair := (List.isChain_iff_pairwise.mp hchain).sublist hsub
  obtain ⟨sa', sb', ha', hb', hle⟩ := (List.pairwise_pair).mp hpair
  rw [ha] at ha'
  rw [hb] at hb'
  cases ha'
  cases hb'
  exact hle

/-- A node lies inside each of its ancestors. -/
theorem encloses_of_mem_ancestors (a n : Nat) (ha : a ∈ t.ancestors n) (inner : Span)
    (hinner : t.span? n = some inner) :
    ∃ outer, t.span? a = some outer ∧ outer.encloses inner = true := by
  induction n using Nat.strongRecOn generalizing inner with
  | _ n ih =>
    rcases h.mem_ancestors_cases a n ha with rfl | ⟨p, hp, hrest⟩
    · exact ⟨inner, hinner, by simp [Span.encloses]⟩
    · have hlt := h.parent_lt n p hp
      obtain ⟨middle, hmiddle⟩ :=
        t.span?_eq_some p (Nat.lt_trans hlt (t.lt_size_of_parent? n p hp))
      obtain ⟨outer, houter, hencloses⟩ := ih p hlt hrest middle hmiddle
      refine ⟨outer, houter, ?_⟩
      have hinside := h.inside n p hp middle hmiddle inner hinner
      simp only [Span.encloses, Bool.and_eq_true, decide_eq_true_eq] at hencloses hinside ⊢
      omega

end Nested

/-! ### Ways down -/

def acceptedChild? (t : SyntaxTree) (accepts : Span → Bool) (id : Nat) : Option Nat :=
  (t.children id).find? fun c => (t.span? c).any accepts

theorem mem_of_acceptedChild? {t : SyntaxTree} {accepts : Span → Bool} {id c : Nat}
    (h : t.acceptedChild? accepts id = some c) :
    c ∈ t.children id ∧ (t.span? c).any accepts = true := by
  have haccepted := List.find?_some h
  exact ⟨List.mem_of_find?_eq_some h, haccepted⟩

/-- The way down from a node ends at another after finitely many steps, each to the first child that
is accepted. -/
inductive LeadsDown (t : SyntaxTree) (accepts : Span → Bool) : Nat → Nat → Prop where
  | stop {id : Nat} (h : t.acceptedChild? accepts id = none) : LeadsDown t accepts id id
  | step {id c r : Nat} (h : t.acceptedChild? accepts id = some c)
    (hdown : LeadsDown t accepts c r) : LeadsDown t accepts id r

theorem Linked.leadsDown_descend {t : SyntaxTree} (h : t.Linked) (accepts : Span → Bool)
    (id : Nat) : t.LeadsDown accepts id (t.descend accepts id) := by
  fun_induction descend t accepts id with
  | case1 id c hfind hbounds ih => exact .step hfind ih
  | case2 id c hfind hbounds =>
    exact absurd (h.bounds_of_mem_children id c (List.mem_of_find?_eq_some hfind)) hbounds
  | case3 id hfind => exact .stop hfind

namespace LeadsDown

variable {t : SyntaxTree} {accepts : Span → Bool} {id r : Nat}

theorem accepted (h : t.LeadsDown accepts id r) : r = id ∨ (t.span? r).any accepts = true := by
  induction h with
  | stop _ => exact Or.inl rfl
  | @step id c r hchild _ ih =>
    rcases ih with rfl | hr
    · exact Or.inr (mem_of_acceptedChild? hchild).2
    · exact Or.inr hr

theorem not_accepted_child (h : t.LeadsDown accepts id r) (c : Nat) (hc : c ∈ t.children r) :
    (t.span? c).any accepts = false := by
  induction h with
  | stop hnone => exact Bool.eq_false_iff.mpr (List.find?_eq_none.mp hnone c hc)
  | step _ _ ih => exact ih hc

theorem mem_ancestors (h : t.LeadsDown accepts id r) (hlinked : t.Linked) :
    id ∈ t.ancestors r := by
  induction h with
  | stop _ => exact hlinked.self_mem_ancestors _
  | @step id c r hchild _ ih =>
    refine hlinked.mem_ancestors_trans id c r ?_ ih
    have hparent := (hlinked.mem_children_iff id c).mp (mem_of_acceptedChild? hchild).1
    exact hlinked.mem_ancestors_of_parent id c id hparent (hlinked.self_mem_ancestors id)

/-- An accepted node is on the way, or the way turns off at a sibling before it that is accepted
too. -/
theorem passes_or_turns (h : t.LeadsDown accepts id r) (hnested : t.Nested)
    (hmono : ∀ outer inner : Span, outer.encloses inner = true → accepts inner = true →
      accepts outer = true)
    (n : Nat) (hid : id ∈ t.ancestors n) (s : Span) (hs : t.span? n = some s)
    (haccepted : accepts s = true) :
    n ∈ t.ancestors r ∨ ∃ a ∈ t.ancestors r, ∃ b ∈ t.ancestors n, t.Precedes a b ∧
      (t.span? a).any accepts = true ∧ (t.span? b).any accepts = true := by
  have habove (c : Nat) (hc : c ∈ t.ancestors n) : (t.span? c).any accepts = true := by
    obtain ⟨outer, houter, hencloses⟩ := hnested.encloses_of_mem_ancestors c n hc s hs
    exact (Option.any_eq_true ..).mpr ⟨outer, houter, hmono outer s hencloses haccepted⟩
  induction h with
  | stop hnone =>
    rcases hnested.exists_child_towards _ n hid with rfl | ⟨c, hc, hcn⟩
    · exact Or.inl (hnested.self_mem_ancestors _)
    · exact absurd (habove c hcn) (List.find?_eq_none.mp hnone c hc)
  | @step id c r hchild hdown ih =>
    rcases hnested.exists_child_towards id n hid with rfl | ⟨c', hc', hcn⟩
    · exact Or.inl ((LeadsDown.step hchild hdown).mem_ancestors hnested.toLinked)
    · obtain ⟨hc, front, back, hchildren, hfront⟩ := List.find?_eq_some_iff_append.mp hchild
      rw [hchildren, List.mem_append, List.mem_cons] at hc'
      rcases hc' with hbefore | rfl | hbehind
      · -- The first accepted child comes before all others that are accepted.
        have hnot := hfront c' hbefore
        rw [habove c' hcn] at hnot
        cases hnot
      · exact ih hcn
      · refine Or.inr ⟨c, hdown.mem_ancestors hnested.toLinked, c', hcn, ⟨id, ?_⟩, hc,
          habove c' hcn⟩
        rw [hchildren]
        exact ((List.singleton_sublist.mpr hbehind).cons_cons c).trans
          (List.sublist_append_right front _)

end LeadsDown

/-! ### Look-ups -/

namespace Nested

variable {t : SyntaxTree} (h : t.Nested) (pos : Nat) {r : Nat}

include h

/-- Siblings share no byte, so every node that contains the position is on the way. -/
theorem mem_ancestors_of_contains (hdown : t.LeadsDown (·.contains pos) 0 r) (n : Nat)
    (hn : (t.span? n).any (·.contains pos) = true) : n ∈ t.ancestors r := by
  obtain ⟨s, hs, hcontains⟩ := (Option.any_eq_true ..).mp hn
  have hroot := h.root_mem_ancestors n (t.lt_size_of_span? n s hs)
  rcases hdown.passes_or_turns h (Span.contains_of_encloses pos) n hroot s hs hcontains with
    hon | ⟨a, _, b, _, hab, ha, hb⟩
  · exact hon
  · obtain ⟨sa, hsa, ha⟩ := (Option.any_eq_true ..).mp ha
    obtain ⟨sb, hsb, hb⟩ := (Option.any_eq_true ..).mp hb
    have hle := h.stop_le_start a b hab sa sb hsa hsb
    simp only [Span.contains, Bool.and_eq_true, decide_eq_true_eq] at ha hb
    omega

/-- A node that touches the position and is not on the way starts there, behind a node on the way.
-/
theorem mem_ancestors_of_touches (hdown : t.LeadsDown (·.touches pos) 0 r) (n : Nat)
    (hn : (t.span? n).any (·.touches pos) = true) :
    n ∈ t.ancestors r ∨ (t.span? n).any (·.start == pos) = true ∧
      ∃ a ∈ t.ancestors r, ∃ b ∈ t.ancestors n, t.Precedes a b := by
  obtain ⟨s, hs, htouches⟩ := (Option.any_eq_true ..).mp hn
  have hroot := h.root_mem_ancestors n (t.lt_size_of_span? n s hs)
  rcases hdown.passes_or_turns h (Span.touches_of_encloses pos) n hroot s hs htouches with
    hon | ⟨a, har, b, hbn, hab, ha, _⟩
  · exact Or.inl hon
  · refine Or.inr ⟨(Option.any_eq_true ..).mpr ⟨s, hs, beq_iff_eq.mpr ?_⟩, a, har, b, hbn, hab⟩
    obtain ⟨sa, hsa, ha⟩ := (Option.any_eq_true ..).mp ha
    obtain ⟨sb, hsb, hencloses⟩ := h.encloses_of_mem_ancestors b n hbn s hs
    have hle := h.stop_le_start a b hab sa sb hsa hsb
    simp only [Span.touches, Span.encloses, Bool.and_eq_true, decide_eq_true_eq] at *
    omega

end Nested

theorem root?_of_nonempty (t : SyntaxTree) (h : t.isEmpty = false) : t.root? = some 0 := by
  rw [root?, h]
  rfl

/-- In a tree built from spans that run forwards, a look-up ends after finitely many steps down from
the root. All nodes that contain the byte at the position are the one found and its ancestors; of
those that touch the position, all others start there and stand behind a node on the way. -/
theorem lookups_find_smallest (steps : List BuildStep) (t : SyntaxTree)
    (hbuild : build steps = .ok t) (hnonempty : t.isEmpty = false)
    (hforward : ∀ s ∈ steps, ∀ node ∈ s.node?, node.2.start ≤ node.2.stop) (pos : Nat) :
    (∃ r, t.nodeContaining? pos = some r ∧ t.LeadsDown (·.contains pos) 0 r ∧
      (r = 0 ∨ (t.span? r).any (·.contains pos) = true) ∧
      ∀ n, (t.span? n).any (·.contains pos) = true → n ∈ t.ancestors r) ∧
    ∃ r, t.nodeTouching? pos = some r ∧ t.LeadsDown (·.touches pos) 0 r ∧
      (r = 0 ∨ (t.span? r).any (·.touches pos) = true) ∧
      (∀ c ∈ t.children r, (t.span? c).any (·.touches pos) = false) ∧
      ∀ n, (t.span? n).any (·.touches pos) = true →
        n ∈ t.ancestors r ∨ (t.span? n).any (·.start == pos) = true ∧
          ∃ a ∈ t.ancestors r, ∃ b ∈ t.ancestors n, t.Precedes a b := by
  have hnested := nested_build steps t hbuild hforward
  have hroot := t.root?_of_nonempty hnonempty
  have hcontains := hnested.leadsDown_descend (·.contains pos) 0
  have htouches := hnested.leadsDown_descend (·.touches pos) 0
  constructor
  · refine ⟨_, ?_, hcontains, hcontains.accepted, hnested.mem_ancestors_of_contains pos hcontains⟩
    rw [nodeContaining?, hroot]
    rfl
  · refine ⟨_, ?_, htouches, htouches.accepted, htouches.not_accepted_child,
      hnested.mem_ancestors_of_touches pos htouches⟩
    rw [nodeTouching?, hroot]
    rfl

/-- The element `<p>{x}</p>`; the text between the opening tag and the expression is empty. -/
def elementSteps : List BuildStep :=
  [.enter .sourceFile ⟨0, 10⟩, .enter .jsxElement ⟨0, 10⟩, .enter .jsxOpeningElement ⟨0, 3⟩,
   .leaf .identifier ⟨1, 2⟩, .leave, .leaf .jsxText ⟨3, 3⟩, .enter .jsxExpression ⟨3, 6⟩,
   .leaf .identifier ⟨4, 5⟩, .leave, .leaf .jsxClosingElement ⟨6, 10⟩, .leave, .leave]

/-- At the end of the opening tag that tag is touched; the byte there is in the expression, which
stands behind the tag. -/
theorem lookups_find_smallest_in_element :
    ∃ t, build elementSteps = .ok t ∧ t.isEmpty = false ∧
      (∀ s ∈ elementSteps, ∀ node ∈ s.node?, node.2.start ≤ node.2.stop) ∧
      t.nodeContaining? 3 = some 5 ∧ 1 ∈ t.ancestors 5 ∧
      t.nodeTouching? 3 = some 2 ∧ ∃ a ∈ t.ancestors 2, ∃ b ∈ t.ancestors 5, t.Precedes a b := by
  obtain ⟨t, ht⟩ : ∃ t, build elementSteps = .ok t := ⟨_, rfl⟩
  have hnonempty : t.isEmpty = false := by
    cases ht
    rfl
  have hforward : ∀ s ∈ elementSteps, ∀ node ∈ s.node?, node.2.start ≤ node.2.stop := by decide
  have hexpression : t.nodeContaining? 3 = some 5 := by
    cases ht
    decide +kernel
  have htag : t.nodeTouching? 3 = some 2 := by
    cases ht
    decide +kernel
  have hapart : 5 ∉ t.ancestors 2 := by
    cases ht
    decide +kernel
  have hspans : (t.span? 1).any (·.contains 3) = true ∧ (t.span? 5).any (·.touches 3) = true := by
    cases ht
    decide
  obtain ⟨⟨r, hr, _, _, hcontaining⟩, r', hr', _, _, _, htouching⟩ :=
    lookups_find_smallest elementSteps t ht hnonempty hforward 3
  rw [hexpression] at hr
  rw [htag] at hr'
  cases hr
  cases hr'
  exact ⟨t, ht, hnonempty, hforward, hexpression, hcontaining 1 hspans.1, htag,
    ((htouching 5 hspans.2).resolve_left hapart).2⟩

end SyntaxTree

end CodeCompletion
