import CertAuthority.Bytes.Hex
import CertAuthority.Net.Address
import CertAuthority.X509.Name

/-!
# General names

Names of hosts, mailboxes, resources and addresses in certificates, and their text form
`TYPE:value`. Name forms without such a text are shown as the structure that was read.
-/

namespace CertAuthority.X509

open Der

inductive GeneralName where
  | other (oid : List Nat) (value : Bytes)
  | email (s : String)
  | dns (s : String)
  | x400 (e : Element)
  | directory (name : Name) (raw : Bytes)
  | party (e : Element)
  | uri (s : String)
  | address (b : Bytes)
  | registered (content : Bytes)
deriving DecidableEq, Repr

namespace GeneralName

/-! ## Reading -/

def ofElement? (e : Element) : Option GeneralName :=
  if e.tag &&& 0xc0 ≠ 0x80 then none
  else
    match (e.tag &&& 0x1f).toNat with
    | 0 => (oidValue.runOn .tolerant e.content).map fun (o, rest) => .other o rest
    | 1 => (Bytes.text? e.content).map .email
    | 2 => (Bytes.text? e.content).map .dns
    | 3 => some (.x400 e)
    | 4 => (Name.parser.parseAll? .tolerant e.content).map fun n => .directory n e.content
    | 5 => some (.party e)
    | 6 => (Bytes.text? e.content).map .uri
    | 7 => some (.address e.content)
    | 8 => some (.registered e.content)
    | _ => none

def parser : Parser GeneralName := do ofOption (ofElement? (← anyElement))

/-! ## Writing -/

/-- The forms that can be requested. -/
def encode : GeneralName → Bytes
  | .email s => implicit 1 (Bytes.ofText s)
  | .dns s => implicit 2 (Bytes.ofText s)
  | .uri s => implicit 6 (Bytes.ofText s)
  | .address b => implicit 7 b
  | .other o v => element (tagExplicit 0) (oid o ++ v)
  | .directory _ raw => explicit 4 raw
  | .registered c => implicit 8 c
  | .x400 e | .party e => e.raw

/-! ## Structure -/

def bytesText (b : Bytes) : String :=
  "[" ++ ", ".intercalate (b.map fun x => toString x.toNat) ++ "]"

def oidText (arcs : List Nat) : String := "OID(" ++ dotted arcs ++ ")"

/-- Named fields in braces. -/
def fieldsText (name : String) (fields : List (String × String)) : String :=
  name ++ " \x7b " ++ ", ".intercalate (fields.map fun (k, v) => k ++ ": " ++ v) ++ " \x7d"

def classText (tag : UInt8) : String :=
  match (tag >>> 6).toNat with
  | 0 => "Universal"
  | 1 => "Application"
  | 2 => "ContextSpecific"
  | _ => "Private"

def elementText (e : Element) : String :=
  let header := fieldsText "Header"
    [("class", classText e.tag), ("constructed", if e.tag &&& 0x20 = 0 then "false" else "true"),
     ("tag", "Tag(" ++ toString (e.tag &&& 0x1f).toNat ++ ")"),
     ("length", "Definite(" ++ toString e.content.length ++ ")"),
     ("raw_tag", "Some(" ++ bytesText [e.tag] ++ ")")]
  fieldsText "Any" [("header", header), ("data", bytesText e.content)]

def listText (items : List String) : String := "[" ++ ", ".intercalate items ++ "]"

def nameText (n : Name) (raw : Bytes) : String :=
  let entry (e : NameEntry) := fieldsText "AttributeTypeAndValue"
    [("attr_type", oidText e.oid), ("attr_value", elementText e.value)]
  let set (es : List NameEntry) :=
    fieldsText "RelativeDistinguishedName" [("set", listText (es.map entry))]
  fieldsText "X509Name" [("rdn_seq", listText (n.sets.map set)), ("raw", bytesText raw)]

def structureText : GeneralName → String
  | .other o v => "OtherName(" ++ oidText o ++ ", " ++ bytesText v ++ ")"
  | .x400 e => "X400Address(" ++ elementText e ++ ")"
  | .directory n raw => "DirectoryName(" ++ nameText n raw ++ ")"
  | .party e => "EDIPartyName(" ++ elementText e ++ ")"
  | .registered c => "RegisteredID(" ++ oidText ((arcsOfContent? c).getD []) ++ ")"
  | _ => ""

/-! ## Text form -/

def text : GeneralName → String
  | .dns s => "DNS:" ++ s
  | .email s => "email:" ++ s
  | .uri s => "URI:" ++ s
  | .address b => match Address.ofBytes? b with
    | some a => "IP:" ++ a.print
    | none => "IP:" ++ Hex.encode b
  | n => "other:" ++ structureText n

/-- Set bits of a byte. -/
def popCount (b : UInt8) : Nat := ((List.range 8).filter b.toNat.testBit).length

/-- A name that stands for all names below it; the second half of an address is its mask. -/
def subtreeText : GeneralName → String
  | .address b =>
    let half := b.length / 2
    match Address.ofBytes? (b.take half) with
    | some a => "IP:" ++ a.print ++ "/" ++ toString (((b.drop half).map popCount).foldl (· + ·) 0)
    | none => "IP:" ++ Hex.encode b
  | n => n.text

end GeneralName
end CertAuthority.X509
