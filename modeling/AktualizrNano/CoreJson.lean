/-
AktualizrNano/CoreJson.lean

A JSON document as coreJSON hands it out.  The library validates a text once
and then answers queries with slices of it: the text between the quotes for a
string, the whole text of the value for anything else.  The model is the
parsed document, with the slice (`raw`) kept at every value because the code
compares and scans slices.

Escapes are not decoded by the library and not by the code, so the `raw` of a
string is what stands between its quotes.
-/
import AktualizrNano.CLib

namespace AktualizrNano

open CLib

/-- A value of a validated document; `lit` is a number, `true`, `false` or
`null`. -/
inductive Json
  | lit (raw : List Byte)
  | str (raw : List Byte)
  | arr (raw : List Byte) (elems : List Json)
  | obj (raw : List Byte) (members : List (List Byte × Json))

namespace Json

/-- The slice a query delivers. -/
def raw : Json → List Byte
  | lit r | str r | arr r _ | obj r _ => r

/-- What the queries `[0]`, `[1]`, … find, in order. -/
def elems : Json → List Json
  | arr _ es => es
  | _ => []

/-- What `JSON_Iterate` visits, in order. -/
def values : Json → List Json
  | arr _ es => es
  | obj _ ms => ms.map Prod.snd
  | _ => []

/-- The first member of that name. -/
def member (key : String) : Json → Option Json
  | obj _ ms => (ms.find? fun m => m.1 = ascii key).map Prod.snd
  | _ => none

/-- `JSON_SearchConst`, with the query split at its separators. -/
def search (data : Json) (query : List String) : Option Json :=
  query.foldlM (fun value key => value.member key) data

/-! ### Building documents -/

/-- A value as it stands in a text. -/
def text : Json → List Byte
  | str r => ascii "\"" ++ r ++ ascii "\""
  | lit r | arr r _ | obj r _ => r

def ofString (s : String) : Json := str (ascii s)

def ofElems (elems : List Json) : Json :=
  arr (ascii "[" ++ ((elems.map text).intersperse (ascii ",")).flatten ++ ascii "]") elems

def ofMembers (members : List (String × Json)) : Json :=
  obj (ascii "\x7b" ++ ((members.map fun (k, v) => (ofString k).text ++ ascii ":" ++ v.text).intersperse
    (ascii ",")).flatten ++ ascii "\x7d") (members.map fun (k, v) => (ascii k, v))

end Json

end AktualizrNano
