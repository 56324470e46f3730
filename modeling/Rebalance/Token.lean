/-!
# The rebalancing token

One run at a time may change a cluster's topology: a run first takes the cluster-wide token and
gives it back at the end. Taking succeeds only when the token is free; giving back always frees.
-/

namespace Rebalance

/-- The cluster-wide token; `held` tells whether some run has it. -/
structure Token where
  held : Bool
deriving DecidableEq, Repr

namespace Token

/-- A free token. -/
def free : Token := ⟨false⟩

/-- Takes the token: whether it was free, and the token afterwards (held in either case). -/
def acquire (t : Token) : Bool × Token := (!t.held, ⟨true⟩)

/-- Gives the token back. -/
def release (_ : Token) : Token := free

end Token

end Rebalance
