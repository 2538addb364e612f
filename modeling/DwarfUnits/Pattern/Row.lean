/-! How deep the parts of a pattern nest. -/
namespace DwarfUnits.Pattern

/-- Parts side by side: how many there are, and how deep the deepest of them nests. -/
structure Row where
  count : Nat
  deepest : Nat

namespace Row

def empty : Row := { count := 0, deepest := 0 }

def add (r : Row) (depth : Nat) : Row :=
  { count := r.count + 1, deepest := max r.deepest depth }

/-- Two or more parts together are a level of their own. -/
def depth (r : Row) : Nat := if 2 ≤ r.count then r.deepest + 1 else r.deepest

end Row
end DwarfUnits.Pattern
