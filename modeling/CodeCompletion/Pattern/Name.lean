import CodeCompletion.Text.Affix
import CodeCompletion.Text.Split

namespace CodeCompletion

inductive NamePattern where
  /-- The name itself. -/
  | exact (name : String)
  /-- Names that start with `head` and end with `tail`, the two not overlapping. -/
  | wildcard (head tail : String)
  deriving Repr, DecidableEq

inductive PatternError where
  | tooManyWildcards (pattern : String)
  deriving Repr, DecidableEq

def PatternError.message : PatternError → String
  | .tooManyWildcards pattern => "pattern `" ++ pattern ++ "` contains more than one `*`"

namespace NamePattern

def compile (text : String) : Except PatternError NamePattern :=
  match Text.cutFirst? (· == '*') text.toList with
  | none => .ok (.exact text)
  | some (head, tail) =>
    if tail.contains '*' then .error (.tooManyWildcards text)
    else .ok (.wildcard (String.ofList head) (String.ofList tail))

def accepts : NamePattern → String → Bool
  | .exact name, s => name == s
  | .wildcard head tail, s =>
    head.length + tail.length ≤ s.length && Text.startsWith head s && Text.endsWith tail s

def isWildcard : NamePattern → Bool
  | .exact _ => false
  | .wildcard _ _ => true

end NamePattern

end CodeCompletion
