/-!
# Namespace scopes

While a document is rendered, `Scopes` holds the namespace bindings whose scopes are open, and those
that were opened since the last start tag, which the next one declares. The end of a scope closes
the innermost open one of the same binding.
-/

namespace BinaryXml

/-- An opened namespace binding: the string index of its prefix, if it has one, and of its uri. -/
structure ScopedBinding where
  /-- The string index of the prefix. -/
  name : Option UInt32
  /-- The string index of the uri. -/
  uri : UInt32
  deriving DecidableEq, Repr

/-- The namespace scopes at some point of a document. -/
structure Scopes where
  /-- The bindings whose scopes are open, the innermost first. -/
  bindings : List ScopedBinding := []
  /-- The bindings opened since the last start tag, the latest first. -/
  pending : List ScopedBinding := []
  deriving DecidableEq, Repr

namespace Scopes

/-- Open the scope of a binding. -/
def enter (binding : ScopedBinding) (scopes : Scopes) : Scopes where
  bindings := binding :: scopes.bindings
  pending := binding :: scopes.pending

/-- Close the innermost scope of a binding, if one is open. -/
def leave (binding : ScopedBinding) (scopes : Scopes) : Scopes :=
  { scopes with bindings := scopes.bindings.erase binding }

/-- Forget the bindings that a start tag has declared. -/
def declared (scopes : Scopes) : Scopes :=
  { scopes with pending := [] }

/-- The prefix of the innermost binding of a uri. -/
def prefixFor? (uri : UInt32) (scopes : Scopes) : Option UInt32 :=
  (scopes.bindings.find? (·.uri = uri)).bind (·.name)

end Scopes

end BinaryXml
