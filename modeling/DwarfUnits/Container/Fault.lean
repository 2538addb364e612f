/-! Why bytes are not a readable container. -/
namespace DwarfUnits.Container

/-- What a reader of containers finds wrong, in its own words. -/
structure Fault where
  message : String
  deriving DecidableEq

end DwarfUnits.Container
