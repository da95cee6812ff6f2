import CodeCompletion.Pattern.Glob

namespace CodeCompletion.Glob

/-- An open brace: the pieces before it and the finished branches, both latest first. -/
structure OpenChoice where
  before : List GlobToken
  finished : List (List GlobToken)

/-- The pieces of the current branch, latest first, and the open braces, innermost first. -/
structure Reading where
  current : List GlobToken := []
  choices : List OpenChoice := []

structure OpenClass where
  negated : Bool
  isFirst : Bool := true
  /-- Whether the latest range has just been continued by a dash. -/
  inRange : Bool := false
  ranges : List (Char × Char) := []

/-- What the next character means. -/
inductive Mode where
  | plain
  | escaped
  /-- Directly behind an opening bracket. -/
  | classStart
  | inClass (cls : OpenClass)

namespace Reading

def push (r : Reading) (t : GlobToken) : Reading := { r with current := t :: r.current }

def openBrace (r : Reading) : Reading :=
  { current := [], choices := ⟨r.current, []⟩ :: r.choices }

/-- Ends a branch; outside of choices a comma stands for itself. -/
def comma (r : Reading) : Reading :=
  match r.choices with
  | [] => r.push (.literal ',')
  | c :: cs =>
    { current := [], choices := { c with finished := r.current.reverse :: c.finished } :: cs }

def closeBrace (r : Reading) : Except GlobError Reading :=
  match r.choices with
  | [] => .error .unopenedChoice
  | c :: cs =>
    let branches := (r.current.reverse :: c.finished).reverse
    .ok { current := .choice branches :: c.before, choices := cs }

/-- Replaces the latest piece by one for whole components, unless it is one already. -/
def mergeComponents (r : Reading) (t : GlobToken) : Reading :=
  match r.current with
  | .leadingComponents :: _ | .trailingComponents :: _ => r
  | _ :: rest => { r with current := t :: rest }
  | [] => r

/-- Reads `**` between two characters. Also tells whether a slash behind it is used up. -/
def doubleStar (r : Reading) (previous next : Option Char) : Reading × Bool :=
  let twoRuns := ((r.push .anyRun).push .anyRun, false)
  let inChoice := !r.choices.isEmpty
  if r.current.isEmpty then
    if next.all (· == '/') then (r.push .leadingComponents, true) else twoRuns
  else if previous == some '/' || (inChoice && (previous == some ',' || previous == some '\x7b'))
  then
    match next with
    | none => (r.mergeComponents .trailingComponents, false)
    | some '/' => (r.mergeComponents .innerComponents, true)
    | some c =>
      if inChoice && (c == ',' || c == '\x7d') then (r.mergeComponents .trailingComponents, false)
      else twoRuns
  else twoRuns

def finish (r : Reading) : Except GlobError Glob :=
  if r.choices.isEmpty then .ok ⟨r.current.reverse⟩ else .error .unclosedChoice

end Reading

namespace OpenClass

def endRange (cls : OpenClass) (c : Char) : Except GlobError OpenClass :=
  match cls.ranges with
  | (low, _) :: rest =>
    if c < low then .error (.reversedRange low c)
    else .ok { cls with isFirst := false, inRange := false, ranges := (low, c) :: rest }
  | [] => .ok { cls with isFirst := false, inRange := false, ranges := [(c, c)] }

def add (cls : OpenClass) (c : Char) : Except GlobError OpenClass :=
  if cls.inRange then cls.endRange c
  else if c = '-' && !cls.isFirst then .ok { cls with inRange := true }
  else .ok { cls with isFirst := false, ranges := (c, c) :: cls.ranges }

/-- The finished class; a dash at its end stands for itself. -/
def close (cls : OpenClass) : GlobToken :=
  let ranges := if cls.inRange then ('-', '-') :: cls.ranges else cls.ranges
  .byteClass ⟨cls.negated, ranges.reverse⟩

end OpenClass

/-- Reads the rest of a glob; `previous` is the character before it. -/
def scan : Mode → Option Char → Reading → List Char → Except GlobError Glob
  | .plain, _, r, [] => r.finish
  | .escaped, _, _, [] => .error .danglingEscape
  | .classStart, _, _, [] => .error .unclosedClass
  | .inClass _, _, _, [] => .error .unclosedClass
  | .escaped, _, r, c :: rest => scan .plain (some c) (r.push (.literal c)) rest
  | .classStart, _, r, c :: rest =>
    if c = '!' || c = '^' then scan (.inClass ⟨true, true, false, []⟩) (some c) r rest
    else do
      let cls ← OpenClass.add ⟨false, true, false, []⟩ c
      scan (.inClass cls) (some c) r rest
  | .inClass cls, _, r, c :: rest =>
    if c = ']' && !cls.isFirst then scan .plain (some c) (r.push cls.close) rest
    else do
      let cls ← cls.add c
      scan (.inClass cls) (some c) r rest
  | .plain, previous, r, '*' :: '*' :: '/' :: rest =>
    match r.doubleStar previous (some '/') with
    | (r, true) => scan .plain (some '/') r rest
    | (r, false) => scan .plain (some '/') (r.push (.literal '/')) rest
  | .plain, previous, r, '*' :: '*' :: rest =>
    scan .plain (some '*') (r.doubleStar previous rest.head?).1 rest
  | .plain, _, r, c :: rest =>
    match c with
    | '?' => scan .plain (some c) (r.push .anyByte) rest
    | '*' => scan .plain (some c) (r.push .anyRun) rest
    | '[' => scan .classStart (some c) r rest
    | '\x7b' => scan .plain (some c) r.openBrace rest
    | '\x7d' => do scan .plain (some c) (← r.closeBrace) rest
    | ',' => scan .plain (some c) r.comma rest
    | '\\' => scan .escaped (some c) r rest
    | c => scan .plain (some c) (r.push (.literal c)) rest

def parse (text : String) : Except GlobError Glob :=
  scan .plain none {} text.toList

end CodeCompletion.Glob
