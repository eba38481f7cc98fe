/- Which texts are URIs: a path that begins with a slash, an authority alone, or a scheme, an
   authority and a path with what belongs to it. An authority may hold a user, and a host that is a
   name or an IPv6 address in brackets. -/
namespace TwoPhaseCommit.Uri

def isLetterOrDigit (c : Char) : Bool :=
  '0' ≤ c && c ≤ '9' || 'A' ≤ c && c ≤ 'Z' || 'a' ≤ c && c ≤ 'z'

def isSchemeChar (c : Char) : Bool := isLetterOrDigit c || "+-.~".toList.contains c

/-- The characters of an authority that have no part in its structure. -/
def isAuthorityChar (c : Char) : Bool := isLetterOrDigit c || "!$&'()*+,-.;=_~".toList.contains c

/-- All that stands for itself in a path, quotes and braces, and all that is not ASCII. -/
def isPathChar (c : Char) : Bool :=
  c = '!' || '$' ≤ c && c ≤ ';' || c = '=' || '@' ≤ c && c ≤ '_' || 'a' ≤ c && c ≤ '~' ||
    c.toNat = 34 || 128 ≤ c.toNat

def isQueryChar (c : Char) : Bool :=
  c = '!' || '$' ≤ c && c ≤ ';' || c = '=' || '?' ≤ c && c ≤ '~' || 128 ≤ c.toNat

/-- What has been seen of an authority since its last at sign. -/
structure Authority where
  /-- Colons since the last at sign or closing bracket. -/
  colons : Nat
  opened : Bool
  closed : Bool
  /-- A percent sign stands outside the user and the brackets. -/
  percent : Bool
  /-- The last character was an at sign. -/
  atSign : Bool

/-- An authority can end here: its brackets are closed, at most one colon follows the host, and
    something follows an at sign. -/
def Authority.complete (a : Authority) : Bool :=
  a.opened == a.closed && a.colons ≤ 1 && !a.atSign && !a.percent

/-- Passes over an authority, up to the first slash, question mark or hash sign. -/
def skipAuthority (a : Authority) : List Char → Option (List Char)
  | [] => if a.complete then some [] else none
  | c :: cs =>
    if c = '/' ∨ c = '?' ∨ c = '#' then if a.complete then some (c :: cs) else none
    else if c = ':' then
      if 8 ≤ a.colons then none
      else skipAuthority { a with colons := a.colons + 1, atSign := false } cs
    else if c = '[' then
      if a.percent || a.opened then none else skipAuthority { a with opened := true, atSign := false } cs
    else if c = ']' then
      if !a.opened || a.closed then none
      else skipAuthority { a with closed := true, colons := 0, percent := false, atSign := false } cs
    else if c = '@' then skipAuthority { a with colons := 0, percent := false, atSign := true } cs
    else if c = '%' then skipAuthority { a with percent := true, atSign := false } cs
    else if isAuthorityChar c then skipAuthority { a with atSign := false } cs
    else none

def authority (cs : List Char) : Option (List Char) := skipAuthority ⟨0, false, false, false, false⟩ cs

/-- A query goes on to its end or to a fragment, in which anything may stand. -/
def isQuery (cs : List Char) : Bool :=
  match cs.dropWhile isQueryChar with
  | [] => true
  | c :: _ => c == '#'

/-- A path goes on to its end, to a query or to a fragment. -/
def isPath (cs : List Char) : Bool :=
  match cs.dropWhile isPathChar with
  | [] => true
  | c :: rest => if c = '?' then isQuery rest else c == '#'

/-- The length of the longest text, in bytes. -/
def longest : Nat := 65534

/-- The length of the longest scheme. -/
def longestScheme : Nat := 64

def isUri (s : String) : Bool :=
  let cs := s.toList
  if longest < s.utf8ByteSize then false
  else if cs.head? = some '/' then isPath cs
  else match cs.dropWhile isSchemeChar with
    | ':' :: '/' :: '/' :: rest =>
      if cs.length ≤ 3 then false
      else if longestScheme < (cs.takeWhile isSchemeChar).length then false
      else match authority rest with
        | some path => path.length < rest.length && isPath path
        | none => false
    | _ => cs != [] && authority cs == some []

end TwoPhaseCommit.Uri
