import CodeCompletion.Proofs.Snippet.Reading
import CodeCompletion.Proofs.Text.Runs

namespace CodeCompletion.Snippet

/-! ### Parameters without a value at the end -/

/-- Whether nothing has to be given for a parameter. -/
def TakesNoValue (p : Param) : Prop :=
  p.ty = .void ∨ p.ty = .promise .void

theorem takesNoValue_iff (p : Param) :
    TakesNoValue p ↔ (p.ty.isVoid || p.ty.isPromiseOfVoid) = true := by
  rw [TakesNoValue, Bool.or_eq_true]
  refine or_congr ?_ ?_
  · constructor
    · intro h
      rw [h]
      rfl
    · intro h
      unfold Ty.isVoid at h
      split at h
      · assumption
      · cases h
  · constructor
    · intro h
      rw [h]
      rfl
    · intro h
      unfold Ty.isPromiseOfVoid at h
      split at h
      · rename_i inner hty
        unfold Ty.isVoid at h
        split at h
        · exact hty
        · cases h
      · cases h

/-- Whether `valued` is what stands in front of the longest run at the end for which nothing has to
be given. -/
def IsValuedPart (params valued : List Param) : Prop :=
  ∃ valueless, params = valued ++ valueless ∧ (∀ p ∈ valueless, TakesNoValue p) ∧
    ∀ p ∈ valued.getLast?, ¬ TakesNoValue p

theorem isValuedPart_significantParams (params : List Param) :
    IsValuedPart params (significantParams params) := by
  obtain ⟨hsplit, hrun, hlast⟩ :=
    Text.run_at_end (fun p : Param => p.ty.isVoid || p.ty.isPromiseOfVoid) params
  refine ⟨_, hsplit, fun p hp => (takesNoValue_iff p).mpr (hrun p hp), ?_⟩
  intro p hp hvalueless
  exact Bool.false_ne_true ((hlast p hp).symm.trans ((takesNoValue_iff p).mp hvalueless))

theorem IsValuedPart.eq_significantParams {params valued : List Param}
    (h : IsValuedPart params valued) : significantParams params = valued := by
  obtain ⟨valueless, rfl, hrun, hlast⟩ := h
  have hdrop : ∀ p ∈ valueless.reverse, (p.ty.isVoid || p.ty.isPromiseOfVoid) = true :=
    fun p hp => (takesNoValue_iff p).mp (hrun p (List.mem_reverse.mp hp))
  rw [significantParams, List.reverse_append, List.dropWhile_append_of_pos hdrop]
  cases hrev : valued.reverse with
  | nil => exact (List.reverse_eq_nil_iff.mp hrev).symm
  | cons p front =>
    have hp : p ∈ valued.getLast? := by
      rw [← List.head?_reverse, hrev]
      rfl
    have hvalued : (p.ty.isVoid || p.ty.isPromiseOfVoid) = false :=
      Bool.eq_false_iff.mpr (mt (takesNoValue_iff p).mpr (hlast p hp))
    rw [List.dropWhile_cons, hvalued, if_neg Bool.false_ne_true, ← hrev, List.reverse_reverse]

/-! ### The brackets -/

/-- The parameters that get a placeholder, of those that a value is given for. -/
def shownParams : SkippedParams → List Param → List Param
  | .nothing, valued => valued
  | .onlyRest, valued => valued.filter fun p => p.rest = false
  | .optionalAndRest, valued => valued.filter fun p => p.rest = false ∧ p.optional = false
  | .all, _ => []

def declaration (p : Param) : String :=
  (if p.rest then "..." else "") ++ p.name ++ (if p.optional then "?" else "") ++ ": " ++
    p.ty.display

def shownAt (insertText : PlaceholderText) (place : Nat) (p : Param) : Piece :=
  match insertText with
  | .name => .placeholder (place + 1) p.name
  | .declaration => .placeholder (place + 1) (declaration p)

/-- What stands in the brackets of a call, given the parameters that a value is given for. -/
def argumentPieces (settings : CallSnippets) (valued : List Param) : List Piece :=
  match shownParams settings.skip valued with
  | [] => if valued = [] then [] else [.tabStop 0]
  | shown => (spell ", ").intercalate (shown.mapIdx fun i p => [shownAt settings.insertText i p])

theorem keptParams_eq (skip : SkippedParams) (params : List Param) :
    keptParams skip params = shownParams skip (significantParams params) := by
  rw [keptParams]
  cases skip with
  | nothing => exact List.filter_eq_self.mpr fun _ _ => rfl
  | onlyRest => exact List.filter_congr fun p _ => by simp [isKept]
  | optionalAndRest => exact List.filter_congr fun p _ => by simp [isKept]
  | all => exact List.filter_eq_nil_iff.mpr fun _ _ => Bool.false_ne_true

theorem mapIdx_map_placeholder (insertText : PlaceholderText) (shown : List Param) :
    ((shown.map (paramText insertText)).mapIdx fun i text => [Piece.placeholder (i + 1) text]) =
      shown.mapIdx fun i p => [shownAt insertText i p] := by
  rw [List.mapIdx_eq_zipIdx_map, List.mapIdx_eq_zipIdx_map, List.zipIdx_map, List.map_map]
  cases insertText <;> rfl

theorem yields_arguments (settings : CallSnippets) (params : List Param) :
    Yields .text
      ((match keptParams settings.skip params with
        | [] => if (significantParams params).isEmpty then "" else "$0"
        | kept => placeholders (kept.map (paramText settings.insertText))).toList ++ [')'])
      (argumentPieces settings (significantParams params) ++ [.char ')']) .text := by
  have hclose : Yields .text [')'] [.char ')'] .text := .char (by decide) (by decide)
  rw [argumentPieces, keptParams_eq]
  cases hshown : shownParams settings.skip (significantParams params) with
  | nil =>
    dsimp only
    cases hvalued : significantParams params with
    | nil => exact hclose
    | cons p valued =>
      rw [List.isEmpty_cons, if_neg Bool.false_ne_true, if_neg (List.cons_ne_nil p valued)]
      have hstop : Yields .text ['$', '0'] [] (.tabStop (some 0)) := yields_tabStop 0
      have hend : Yields (.tabStop (some 0)) [')'] [.tabStop 0, .char ')'] .text :=
        .bare (by decide) rfl
      exact hstop.append hend
  | cons p shown =>
    have h := yields_placeholders ((p :: shown).map (paramText settings.insertText))
    rw [mapIdx_map_placeholder] at h
    exact h.append hclose

/-! ### The call -/

/-- Reading a call gives the call it was made from: the name as it is, and in brackets, in the order
of the parameters and numbered from one, a placeholder for each one shown, with its name or its
declaration. With none to show, the brackets hold the last tab stop, or nothing if there is no
parameter to give a value for. -/
theorem read_call (name : String) (signature : Signature) (settings : CallSnippets) :
    (∃ valued, IsValuedPart signature.params valued) ∧
      ∀ valued, IsValuedPart signature.params valued →
        read (call name signature settings) =
          some (spell name ++ spell "(" ++ argumentPieces settings valued ++ spell ")") := by
  refine ⟨⟨_, isValuedPart_significantParams signature.params⟩, fun valued hvalued => ?_⟩
  have hopen : Yields .text ['('] [.char '('] .text := .char (by decide) (by decide)
  have h := ((yields_escape name).append hopen).append
    (yields_arguments settings signature.params)
  rw [hvalued.eq_significantParams, ← List.append_assoc] at h
  refine Yields.read ?_
  rw [call, String.toList_append, String.toList_append, String.toList_append,
    List.append_assoc (spell name ++ spell "("), hvalued.eq_significantParams]
  rw [List.append_assoc] at h ⊢
  exact h

/-- A handler whose parameters are full of characters that mean something in a snippet. -/
def handler : Signature where
  params := [
    { name := "$event", ty := .object ⟨none, [], [], []⟩, optional := true },
    { name := "a\x7d\\b", ty := .primitive .string },
    { name := "rest", ty := .array (.primitive .bool), rest := true },
    { name := "done", ty := .primitive .void },
    { name := "later", ty := .promise (.primitive .void) }]
  ret := .primitive .void

theorem read_handler_call :
    IsValuedPart handler.params (handler.params.take 3) ∧
      read (call "on$" handler { skip := .onlyRest, insertText := .declaration }) =
        some (spell "on$(" ++ [.placeholder 1 "$event?: \x7b \x7d"] ++ spell ", " ++
          [.placeholder 2 "a\x7d\\b: string"] ++ spell ")") := by
  have hvalued : IsValuedPart handler.params (handler.params.take 3) := by
    refine ⟨handler.params.drop 3, rfl, ?_, ?_⟩
    · simp [handler, TakesNoValue]
    · simp [handler, TakesNoValue]
  refine ⟨hvalued, ?_⟩
  rw [(read_call "on$" handler { skip := .onlyRest, insertText := .declaration }).2 _ hvalued]
  rfl

end CodeCompletion.Snippet
