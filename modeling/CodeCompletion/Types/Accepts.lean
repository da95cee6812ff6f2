import CodeCompletion.Types.Ty

namespace CodeCompletion.Ty

mutual

/-- The members of a type through all nested unions. -/
def leaves : Ty → List Ty
  | .union ms => leavesAll ms
  | t => [t]

def leavesAll : List Ty → List Ty
  | [] => []
  | t :: ts => leaves t ++ leavesAll ts

end

def acceptsLiteral : Ty → Literal → Bool
  | .string, .string _ => true
  | .number, .number _ => true
  | .bool, .bool _ => true
  | .named name, .enumMember enumName _ => name == enumName
  | .literal l, m => l == m
  | _, _ => false

def acceptsLeaf : Ty → Ty → Bool
  | .any, _ | .unknown, _ => true
  | _, .any | _, .never => true
  | expected, .literal l => acceptsLiteral expected l
  | expected, actual => expected == actual

mutual

/-- Whether each leaf of the second type is accepted by the first. -/
def accepts (expected actual : Ty) : Bool :=
  match expected with
  | .primitive p => actual.leaves.all (acceptsLeaf (.primitive p))
  | .literal l => actual.leaves.all (acceptsLeaf (.literal l))
  | .named n => actual.leaves.all (acceptsLeaf (.named n))
  | .array e => actual.leaves.all fun
    | .any | .never => true
    | .array a => accepts e a
    | _ => false
  | .promise e => actual.leaves.all fun
    | .any | .never => true
    | .promise a => accepts e a
    | _ => false
  | .object ⟨_, props, _, _⟩ => actual.leaves.all fun
    | .any | .never => true
    | .object a => acceptsProperties props a.properties
    | _ => false
  | .union branches => actual.leaves.all fun
    | .any | .never => true
    | a => acceptedByBranch branches a

def acceptedByBranch : List Ty → Ty → Bool
  | [], _ => false
  | t :: ts, a => accepts t a || acceptedByBranch ts a

/-- Whether each expected property is optional or found with an accepted type. -/
def acceptsProperties : List (PropertyOf Ty) → List Property → Bool
  | [], _ => true
  | ⟨name, ty, optional, _⟩ :: ps, actual =>
    (optional || actual.any fun q => q.name == name && accepts ty q.ty) &&
      acceptsProperties ps actual

end

theorem exists_leafTest (e : Ty) :
    ∃ test : Ty → Bool, ∀ a, accepts e a = a.leaves.all test := by
  cases e <;> exact ⟨_, fun a => by rw [accepts]⟩

theorem acceptedByBranch_iff (a : Ty) (branches : List Ty) :
    acceptedByBranch branches a = true ↔ ∃ b ∈ branches, accepts b a = true := by
  induction branches with
  | nil => simp [acceptedByBranch]
  | cons b branches ih =>
    simp only [acceptedByBranch, Bool.or_eq_true, ih, List.mem_cons, exists_eq_or_imp]

theorem acceptsProperties_iff (expected actual : List Property) :
    acceptsProperties expected actual = true ↔
      ∀ p ∈ expected, p.optional = true ∨
        ∃ q ∈ actual, q.name = p.name ∧ accepts p.ty q.ty = true := by
  induction expected with
  | nil => simp [acceptsProperties]
  | cons p expected ih =>
    obtain ⟨name, ty, optional, symbol⟩ := p
    simp only [acceptsProperties, Bool.and_eq_true, Bool.or_eq_true, List.any_eq_true, beq_iff_eq,
      ih, List.forall_mem_cons]

end CodeCompletion.Ty
