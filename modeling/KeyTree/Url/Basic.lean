import KeyTree.Number.Whole
import KeyTree.Ordered
import KeyTree.Text.Quoted
import KeyTree.Url.Address
import KeyTree.Url.Percent

/-!
# Addresses

An address is split into its parts, and each part is checked and brought into one form: scheme and
host in lower case, default ports left out, dot segments resolved, and characters encoded that may not
stand for themselves. Changing parts checks and reads all of them anew.
-/

namespace KeyTree

/-- An address whose parts are in their final form. -/
structure Url where
  scheme : List Char
  userinfo : List Char
  host : List Char
  port : Option Int
  path : List Char
  query : Option (List Char)
  fragment : Option (List Char)
  deriving DecidableEq

/-- Why a text is no address. -/
inductive UrlFault where
  | tooLong
  | control (c : Char) (position : Nat)
  | partTooLong (part : String)
  | port (text : String)
  | v4 (host : String)
  | v6 (host : String)
  | name (host : String)
  | pathWithoutSlash
  | pathWithSlashes
  | pathWithColon
  deriving DecidableEq

def UrlFault.message : UrlFault → String
  | tooLong => "URL too long"
  | control c position =>
    s!"Invalid non-printable ASCII character in URL, {Text.quoted (String.singleton c)} " ++
      s!"at position {position}."
  | partTooLong part => s!"URL component '{part}' too long"
  | port text => s!"Invalid port: {Text.quoted text}"
  | v4 host => s!"Invalid IPv4 address: {Text.quoted host}"
  | v6 host => s!"Invalid IPv6 address: {Text.quoted host}"
  | name host => s!"Invalid IDNA hostname: {Text.quoted host}"
  | pathWithoutSlash => "For absolute URLs, path must be empty or begin with '/'"
  | pathWithSlashes => "Relative URLs cannot have a path starting with '//'"
  | pathWithColon => "Relative URLs cannot have a path starting with ':'"

namespace Url

/-! ## Characters that stand for themselves -/

/-- Printable ASCII but for some characters. -/
def isPrintableBut (others : List Char) (c : Char) : Bool :=
  decide (0x20 ≤ c.toNat ∧ c.toNat < 0x7F) && !others.contains c

def isFragmentSafe : Char → Bool := isPrintableBut [' ', '"', '<', '>', '\x60']

def queryUnsafe : List Char := [' ', '"', '#', '<', '>']

def isQuerySafe : Char → Bool := isPrintableBut queryUnsafe

def pathUnsafe : List Char := queryUnsafe ++ ['?', '\x60', '{', '}']

def isPathSafe : Char → Bool := isPrintableBut pathUnsafe

def isUserinfoSafe : Char → Bool :=
  isPrintableBut (pathUnsafe ++ ['/', ';', '=', '@', '[', '\\', ']', '^', '|'])

def isHostSafe (c : Char) : Bool := "!$&'()*+,;=\"\x60\x7b\x7d%|\\".toList.contains c

/-! ## Splitting -/

/-- The parts of an address as they are written. -/
structure Written where
  scheme : List Char
  authority : List Char
  path : List Char
  query : Option (List Char)
  fragment : Option (List Char)

def isSchemeChar (c : Char) : Bool := c.isAlphanum || c == '+' || c == '.' || c == '-'

/-- The scheme, which starts with a letter or is empty, and what follows its colon. -/
def splitScheme (s : List Char) : List Char × List Char :=
  let scheme := s.takeWhile isSchemeChar
  match s.dropWhile isSchemeChar with
  | ':' :: rest => if scheme.head?.all Char.isAlpha then (scheme, rest) else ([], s)
  | _ => ([], s)

/-- The authority behind two slashes, and what follows it. -/
def splitAuthority : List Char → List Char × List Char
  | '/' :: '/' :: rest =>
    let isInside := fun c ↦ c != '/' && c != '?' && c != '#'
    (rest.takeWhile isInside, rest.dropWhile isInside)
  | s => ([], s)

/-- What stands behind a mark at the start, up to the characters that end it. -/
def splitBehind (mark : Char) (isInside : Char → Bool) :
    List Char → Option (List Char) × List Char
  | c :: rest =>
    if c = mark then (some (rest.takeWhile isInside), rest.dropWhile isInside)
    else (none, c :: rest)
  | [] => (none, [])

def split (s : List Char) : Written :=
  let (scheme, s) := splitScheme s
  let (authority, s) := splitAuthority s
  let isPath := fun c ↦ c != '?' && c != '#'
  let path := s.takeWhile isPath
  let (query, s) := splitBehind '?' (· != '#') (s.dropWhile isPath)
  let (fragment, _) := splitBehind '#' (fun _ ↦ true) s
  ⟨scheme, authority, path, query, fragment⟩

/-- What stands before the last occurrence of a character, and behind it. -/
def cutLast? (mark : Char) (s : List Char) : Option (List Char × List Char) :=
  (Text.cut? mark s.reverse).map fun (after, before) ↦ (before.reverse, after.reverse)

/-- Userinfo, host and port of an authority. The host may stand in brackets. -/
def splitHost (authority : List Char) : List Char × List Char × List Char :=
  let (userinfo, s) := (cutLast? '@' authority).getD ([], authority)
  let (host, rest) := match s.head? == some '[', cutLast? ']' s with
    | true, some (inside, rest) => (inside ++ [']'], rest)
    | _, _ =>
      let isInside := fun c ↦ c != ':' && c != '@'
      (s.takeWhile isInside, s.dropWhile isInside)
  (userinfo, host, if rest.head? == some ':' then rest.drop 1 else rest)

/-! ## The form of each part -/

/-- The ports that schemes have by default. -/
def defaultPorts : List (String × Int) :=
  [("ftp", 21), ("http", 80), ("https", 443), ("ws", 80), ("wss", 443)]

def readPort (scheme port : List Char) : Except UrlFault (Option Int) :=
  if port.isEmpty then .ok none
  else match Whole.signed? port with
    | none => .error (.port (String.ofList port))
    | some number =>
      let standard := Ordered.get? (String.ofList scheme) defaultPorts
      .ok (if standard == some number then none else some number)

def readHost (host : List Char) : Except UrlFault (List Char) :=
  let inside := (host.drop 1).dropLast
  if host.isEmpty then .ok []
  else if looksLikeV4 host then
    if isV4 host then .ok host else .error (.v4 (String.ofList host))
  else if host.head? == some '[' && host.getLast? == some ']' && decide (2 ≤ host.length) then
    if isV6 inside then .ok inside else .error (.v6 (String.ofList host))
  else if host.all fun c ↦ c.toNat < 128 then
    .ok (percentEncode isHostSafe (host.map Char.toLower))
  else .error (.name (String.ofList host))

def checkPath (hasScheme hasAuthority : Bool) (path : List Char) : Except UrlFault Unit :=
  if hasAuthority then
    if path.isEmpty || path.head? == some '/' then .ok () else .error .pathWithoutSlash
  else if hasScheme then .ok ()
  else match path with
    | '/' :: '/' :: _ => .error .pathWithSlashes
    | ':' :: _ => .error .pathWithColon
    | _ => .ok ()

/--
One more segment of a path, the segments before it standing in reverse: a dot stays where it is and
two dots go up.
-/
def resolveSegment (before : List (List Char)) (segment : List Char) : List (List Char) :=
  if segment == ['.'] then before
  else if segment == ['.', '.'] then
    if before == [[]] then before else before.drop 1
  else segment :: before

/-- A path without dot segments. -/
def resolveDots (path : List Char) : List Char :=
  Text.joined ['/'] ((Text.fieldList '/' path).foldl resolveSegment []).reverse

/-- The address of parts as they are written. -/
def ofWritten (parts : Written) : Except UrlFault Url := do
  let (userinfo, host, port) := splitHost parts.authority
  let userinfo := percentEncode isUserinfoSafe userinfo
  let host ← readHost host
  let port ← readPort parts.scheme port
  let hasScheme := !parts.scheme.isEmpty
  let hasAuthority := !userinfo.isEmpty || !host.isEmpty || port.isSome
  checkPath hasScheme hasAuthority parts.path
  let path := if hasScheme || hasAuthority then resolveDots parts.path else parts.path
  return {
    scheme := parts.scheme.map Char.toLower
    userinfo := userinfo
    host := host
    port := port
    path := percentEncode isPathSafe path
    query := parts.query.map (percentEncode isQuerySafe)
    fragment := parts.fragment.map (percentEncode isFragmentSafe) }

/-! ## Addresses as text -/

/-- The most characters that an address, or a part of it, may have. -/
def lengthLimit : Nat := 65536

def isControl (c : Char) : Bool := decide (c.toNat < 0x20) || c.toNat == 0x7F

/-- The address that a text spells. -/
def parse (text : String) : Except UrlFault Url :=
  let s := text.toList
  if lengthLimit < s.length then .error .tooLong
  else match s.find? isControl with
    | some c => .error (.control c (s.takeWhile (!isControl ·)).length)
    | none => ofWritten (split s)

/-- The authority: userinfo, host and port. A host with colons stands in brackets. -/
def authority (url : Url) : List Char :=
  let host := if url.host.contains ':' then '[' :: url.host ++ [']'] else url.host
  (if url.userinfo.isEmpty then [] else url.userinfo ++ ['@']) ++ host ++
    match url.port with
    | none => []
    | some port => ':' :: (toString port).toList

def chars (url : Url) : List Char :=
  (if url.scheme.isEmpty then [] else url.scheme ++ [':']) ++
    (if url.authority.isEmpty then [] else '/' :: '/' :: url.authority) ++ url.path ++
    (url.query.elim [] ('?' :: ·)) ++ (url.fragment.elim [] ('#' :: ·))

def text (url : Url) : String := String.ofList url.chars

/-! ## Changing the query -/

/-- The parts of an address with another query. -/
def written (url : Url) (query : Option (List Char)) : Written :=
  ⟨url.scheme, url.authority, url.path, query, url.fragment⟩

/-- Refuses parts that are too long. -/
def checkLengths (parts : Written) : Except UrlFault Unit :=
  let named := [("scheme", some parts.scheme), ("authority", some parts.authority),
    ("path", some parts.path), ("query", parts.query), ("fragment", parts.fragment)]
  match named.find? fun part ↦ part.2.any fun s ↦ lengthLimit < s.length with
  | some (part, _) => .error (.partTooLong part)
  | none => .ok ()

/-- The address with another query, read anew part by part. -/
def withQuery (url : Url) (query : Option (List Char)) : Except UrlFault Url := do
  let parts := url.written query
  checkLengths parts
  ofWritten parts

end Url

end KeyTree
