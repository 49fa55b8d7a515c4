/-!
# Namespace bindings

A `NamespaceTable` lists the bindings of prefixes to uris that a document declares, in the order of
their first declaration and each pair once. A prefix that is bound more than once keeps its first
uri. The prefix `xml` stands apart: it is bound to one fixed uri whatever a document declares.
-/

namespace BinaryXml

/-- The prefix that is bound without a declaration. -/
def xmlPrefix : String := "xml"

/-- The uri that `xmlPrefix` is bound to. -/
def xmlNamespaceUri : String := "http://www.w3.org/XML/1998/namespace"

/-- What to do about an attribute whose prefix is declared nowhere. -/
inductive UnboundPolicy where
  /-- Refuse the document. -/
  | reject
  /-- Give the attribute the namespace index `UnboundPolicy.sentinelIndex`. -/
  | sentinel
  deriving DecidableEq, Repr

/-- The namespace index of an attribute whose prefix is declared nowhere. -/
def UnboundPolicy.sentinelIndex : UInt32 := 0

/-- A prefix bound to a uri, both as string indices. -/
structure Binding where
  /-- The string index of the prefix. -/
  name : UInt32
  /-- The string index of the uri. -/
  uri : UInt32
  deriving DecidableEq, Repr

structure NamespaceTable where
  /-- The bindings with their prefixes, in the order of their declarations. -/
  declared : Array (String × Binding) := #[]
  /-- The string index of `xmlNamespaceUri`, once an attribute has used it. -/
  xmlUri : Option UInt32 := none

namespace NamespaceTable

/-- Note a declaration; a binding that is there already stays alone. -/
def declare (name : String) (binding : Binding) (table : NamespaceTable) : NamespaceTable :=
  if table.declared.any (·.2 = binding) then table
  else { table with declared := table.declared.push (name, binding) }

/-- Note the string index of `xmlNamespaceUri`. -/
def bindXml (uri : UInt32) (table : NamespaceTable) : NamespaceTable :=
  { table with xmlUri := some uri }

/-- The string index of the uri that a prefix is bound to. -/
def resolve (name : String) (table : NamespaceTable) : Option UInt32 :=
  if name = xmlPrefix then table.xmlUri
  else (table.declared.find? (·.1 = name)).map (·.2.uri)

/-- The bindings in the order of their declarations. -/
def bindings (table : NamespaceTable) : List Binding :=
  table.declared.toList.map (·.2)

def size (table : NamespaceTable) : Nat :=
  table.declared.size

end NamespaceTable

end BinaryXml
