import FondacoFormal.Library.Text

/-!
# XML documents

Elements without attributes, how a struct is filled from one, and the indented text of
one as `encoding/xml` writes it.
-/

namespace FondacoFormal.Library.Xml

inductive Element where
  | mk (name text : String) (children : List Element)

namespace Element

def name : Element → String
  | mk name _ _ => name

def text : Element → String
  | mk _ text _ => text

def children : Element → List Element
  | mk _ _ children => children

end Element

def leaf (name text : String) : Element :=
  .mk name text []

def branch (name : String) (children : List Element) : Element :=
  .mk name "" children

/-! ## Reading -/

def named (name : String) (elements : List Element) : List Element :=
  elements.filter fun e => e.name = name

/-- What stands in the elements of one name; repeated ones fill the same struct. -/
def under (name : String) (elements : List Element) : List Element :=
  (named name elements).flatMap Element.children

def value (name : String) (elements : List Element) : String :=
  ((named name elements).getLast?.map Element.text).getD ""

def values (name : String) (elements : List Element) : List String :=
  (named name elements).map Element.text

/-! ## Printing -/

def inCharacterRange (c : Char) : Bool :=
  c.toNat = 9 || c.toNat = 10 || c.toNat = 13 || (0x20 ≤ c.toNat && c.toNat ≤ 0xD7FF) ||
    (0xE000 ≤ c.toNat && c.toNat ≤ 0xFFFD) || 0x10000 ≤ c.toNat

/-- `EscapeText`, for one character. -/
def escapeChar (c : Char) : List Char :=
  match c with
  | '\x22' => "&#34;".toList
  | '\x27' => "&#39;".toList
  | '&' => "&amp;".toList
  | '<' => "&lt;".toList
  | '>' => "&gt;".toList
  | '\t' => "&#x9;".toList
  | '\n' => "&#xA;".toList
  | '\r' => "&#xD;".toList
  | c => if inCharacterRange c then [c] else [Char.ofNat 0xFFFD]

/-- `EscapeText`. -/
def escapeText (s : String) : List Char :=
  s.toList.flatMap escapeChar

def indentation (depth : Nat) : List Char :=
  List.replicate (2 * depth) ' '

mutual

/-- `MarshalIndent` with two blanks for each level. -/
def print (depth : Nat) : Element → List Char
  | .mk name text [] => '<' :: name.toList ++ '>' :: escapeText text ++ "</".toList ++
      name.toList ++ ['>']
  | .mk name _ (child :: more) => '<' :: name.toList ++ ['>', '\n'] ++
      printAll (depth + 1) (child :: more) ++ indentation depth ++ "</".toList ++
        name.toList ++ ['>']

def printAll (depth : Nat) : List Element → List Char
  | [] => []
  | e :: rest => indentation depth ++ print depth e ++ '\n' :: printAll depth rest

end

/-- `xml.Header`. -/
def header : String :=
  "<?xml version=\"1.0\" encoding=\"UTF-8\"?>\n"

def document (e : Element) : List UInt8 :=
  Text.encode (header.toList ++ print 0 e ++ ['\n'])

example : String.ofList (print 0 (branch "metadata" [leaf "groupId" "a&b", branch "versions" []])) =
    "<metadata>\n  <groupId>a&amp;b</groupId>\n  <versions></versions>\n</metadata>" := by
  decide +kernel

end FondacoFormal.Library.Xml
