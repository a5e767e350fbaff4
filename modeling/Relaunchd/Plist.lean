/-
  Relaunchd.Plist — manifests in XML (`src/manifest.cc`, built with XML_MANIFEST_SUPPORT),
  over the tree that the vendored `tinyxml2` loads from the file.

  `parse_xml` reads the elements of the first `dict` of the first `plist` in pairs, a key and
  a value. It dereferences both without looking whether they are there.
-/

import Relaunchd.Manifest

namespace Relaunchd

inductive Xml where
  | element (name : String) (children : List Xml)
  | text (value : String)
  | comment (value : String)
  /-- A declaration, or something unknown. -/
  | other

namespace Xml

/-! ## The tree -/

structure Element where
  name : String
  children : List Xml

def element? : Xml → Option Element
  | .element name children => some ⟨name, children⟩
  | .text _ | .comment _ | .other => none

def isComment : Xml → Bool
  | .comment _ => true
  | .element _ _ | .text _ | .other => false

/-- What `FirstChildElement` and `NextSiblingElement` go through. -/
def elements (nodes : List Xml) : List Element := nodes.filterMap element?

def firstChildElement (nodes : List Xml) (name : String) : Option Element := (elements nodes).find? (·.name == name)

/-- The text of the first child that is no comment. -/
def Element.getText (e : Element) : Option String :=
  match e.children.dropWhile isComment with
  | .text value :: _ => some value
  | _ => none

/-- `strcasecmp(a, b) == 0` -/
def sameName (a b : String) : Bool := a.toList.map Char.toLower == b.toList.map Char.toLower

end Xml

namespace Manifest

open Xml

/-- The loop of `parse_xml`. A key without an element after it ends it, whatever the key is. -/
def parseEntries : Json → List Element → Decode (Option Json)
  | result, [] => .ok (some result)
  | _, [_] => .ok none
  | result, elem :: value :: rest =>
    if !sameName elem.name "key" then .ok none
    else match elem.getText with
      | none => .ok none
      | some key =>
        if sameName value.name "string" then match value.getText with
          | none => .ok none
          | some val => do parseEntries (← result.set key (.str val)) rest
        else if sameName value.name "true" then do parseEntries (← result.set key (.bool true)) rest
        else if sameName value.name "false" then do parseEntries (← result.set key (.bool false)) rest
        else .ok none

/-- `loaded` is the document that `LoadFile` makes of the file, if it can. -/
def parseXml (loaded : Option (List Xml)) : Decode (Option Json) :=
  match loaded with
  | none => .ok none
  | some doc => match firstChildElement doc "plist" with
    | none => .error (.abort "null pointer")
    | some plist => match firstChildElement plist.children "dict" with
      | none => .error (.abort "null pointer")
      | some topElement =>
        if topElement.children.isEmpty then .ok none else parseEntries .null (elements topElement.children)

def parsePlist (loaded : Option (List Xml)) : Decode Json := do
  match ← parseXml loaded with
  | some obj => return obj
  | none => return .int (-1)

end Manifest

end Relaunchd
