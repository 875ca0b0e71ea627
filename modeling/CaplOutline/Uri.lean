-- The form of a URI: a scheme, and behind its colon an authority, a path, a query
-- and a fragment. A URI without a scheme is not one, and neither is one with a
-- character that has to be escaped.

namespace CaplOutline.Uri

/-! ## Characters -/

def isHexDigit (c : Char) : Bool := c.isDigit || ('a' ≤ c && c ≤ 'f') || ('A' ≤ c && c ≤ 'F')

/-- The characters that no part behind the scheme has to escape. -/
def isPlain (c : Char) : Bool := c.isAlphanum || "-._~!$&'()*+,;=".toList.contains c

def isPlainOrColon (c : Char) : Bool := isPlain c || c == ':'

/-- The characters of a path, its slashes among them. -/
def isPathChar (c : Char) : Bool := isPlainOrColon c || c == '@' || c == '/'

/-- Text in which all characters but the allowed ones are escaped: a percent sign and two
hexadecimal digits for each byte. -/
def isEscaped (allowed : Char → Bool) : List Char → Bool
  | [] => true
  | '%' :: high :: low :: rest => isHexDigit high && isHexDigit low && isEscaped allowed rest
  | c :: rest => allowed c && isEscaped allowed rest

/-! ## Cutting -/

/-- The text before the first mark, and the text behind it if the mark is there. -/
def cut (mark : Char) (cs : List Char) : List Char × Option (List Char) :=
  match cs.dropWhile (· != mark) with
  | [] => (cs, none)
  | _ :: rest => (cs.takeWhile (· != mark), some rest)

/-- The text before the first double colon, and the text behind it. -/
def cutDoubleColon? : List Char → Option (List Char × List Char)
  | ':' :: ':' :: rest => some ([], rest)
  | c :: rest => (cutDoubleColon? rest).map fun (before, behind) => (c :: before, behind)
  | [] => none

/-- The pieces between the marks. There is one more of them than there are marks. -/
def pieces (mark : Char) (cs : List Char) : List (List Char) :=
  cs.foldr
    (fun c pieces =>
      if c == mark then [] :: pieces else (c :: pieces.headD []) :: pieces.tail)
    [[]]

/-! ## Addresses in brackets -/

/-- A byte in decimal, without zeros before it. -/
def isDecimalByte (cs : List Char) : Bool :=
  (1 ≤ cs.length && cs.length ≤ 3) && cs.all Char.isDigit &&
    (cs.length == 1 || cs.head? != some '0') &&
    cs.foldl (fun value c => value * 10 + (c.toNat - '0'.toNat)) 0 ≤ 255

/-- Four bytes with points between them. -/
def isShortAddress (cs : List Char) : Bool :=
  let bytes := pieces '.' cs
  bytes.length == 4 && bytes.all isDecimalByte

/-- Two bytes of a long address. -/
def isGroup (cs : List Char) : Bool := 1 ≤ cs.length && cs.length ≤ 4 && cs.all isHexDigit

/-- The number of groups in the last part of a long address. A short address may stand for the last
two. -/
def groupCount? : List (List Char) → Option Nat
  | [] => some 0
  | [last] => if isGroup last then some 1 else if isShortAddress last then some 2 else none
  | group :: groups => if isGroup group then (groupCount? groups).map (· + 1) else none

/-- Eight groups with colons between them. A double colon may stand for one or more of them. -/
def isLongAddress (cs : List Char) : Bool :=
  let groups (part : List Char) := if part.isEmpty then [] else pieces ':' part
  match cutDoubleColon? cs with
  | none => groupCount? (groups cs) == some 8
  | some (before, behind) =>
    (groups before).all isGroup &&
      (groupCount? (groups behind)).any fun count => (groups before).length + count ≤ 7

/-- An address of a later kind: a version, a point, and the address itself. -/
def isLaterAddress (cs : List Char) : Bool :=
  match cut '.' cs with
  | (version, some address) =>
    !version.isEmpty && version.all isHexDigit && !address.isEmpty && address.all isPlainOrColon
  | (_, none) => false

def isBracketed : List Char → Bool
  | 'v' :: rest | 'V' :: rest => isLaterAddress rest
  | cs => isLongAddress cs

/-! ## The parts -/

def isScheme : List Char → Bool
  | [] => false
  | c :: rest => c.isAlpha && rest.all fun c => c.isAlphanum || "+-.".toList.contains c

/-- A host is a name, or an address in brackets. A port may follow it. -/
def isHost : List Char → Bool
  | '[' :: rest =>
    match cut ']' rest with
    | (address, some []) => isBracketed address
    | (address, some (':' :: port)) => isBracketed address && port.all Char.isDigit
    | _ => false
  | cs =>
    let (name, port) := cut ':' cs
    isEscaped isPlain name && port.all (·.all Char.isDigit)

/-- An authority is a host, and a user before it if there is an at sign. -/
def isAuthority (cs : List Char) : Bool :=
  match cut '@' cs with
  | (user, some host) => isEscaped isPlainOrColon user && isHost host
  | (_, none) => isHost cs

/-- A path, with an authority before it if two slashes come first. -/
def isPlace : List Char → Bool
  | '/' :: '/' :: rest =>
    isAuthority (rest.takeWhile (· != '/')) && isEscaped isPathChar (rest.dropWhile (· != '/'))
  | path => isEscaped isPathChar path

/-- A query or a fragment. -/
def isQuery (cs : List Char) : Bool := isEscaped (fun c => isPathChar c || c == '?') cs

/-! ## All together -/

def isValid (text : String) : Bool :=
  let (rest, fragment) := cut '#' text.toList
  let (rest, query) := cut '?' rest
  match cut ':' rest with
  | (scheme, some place) =>
    isScheme scheme && isPlace place && query.all isQuery && fragment.all isQuery
  | (_, none) => false

end CaplOutline.Uri
