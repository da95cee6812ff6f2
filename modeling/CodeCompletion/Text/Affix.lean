namespace CodeCompletion.Text

def startsWith (head s : String) : Bool :=
  head.toList.isPrefixOf s.toList

def endsWith (tail s : String) : Bool :=
  tail.toList.isSuffixOf s.toList

/-- What follows `head` in `s`, if `s` starts with it. -/
def dropHead? (head s : List Char) : Option (List Char) :=
  if head.isPrefixOf s then some (s.drop head.length) else none

def dropTail? (tail s : List Char) : Option (List Char) :=
  if tail.isSuffixOf s then some (s.take (s.length - tail.length)) else none

def occursIn (word : List Char) : List Char → Bool
  | [] => word.isEmpty
  | c :: s => word.isPrefixOf (c :: s) || occursIn word s

/-- An ASCII capital letter as the small one; every other byte as it is. -/
def asciiLowerByte (b : UInt8) : UInt8 :=
  if 0x41 ≤ b && b ≤ 0x5A then b + 0x20 else b

def utf8Bytes (s : List Char) : List UInt8 :=
  s.flatMap String.utf8EncodeChar

/-- Whether the bytes of `s` start with the bytes of `head` up to ASCII letter case. -/
def startsWithIgnoringAsciiCase (head s : String) : Bool :=
  ((utf8Bytes head.toList).map asciiLowerByte).isPrefixOf
    ((utf8Bytes s.toList).map asciiLowerByte)

end CodeCompletion.Text
