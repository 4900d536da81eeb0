import LayeredConfig.OrderedMap

/-! Sources of values for the keys that a configuration does not define. -/

namespace LayeredConfig

/-- Answers a key, or does not. -/
abbrev Fallback := Text → Option Text

namespace Fallback

def silent : Fallback := fun _ => none

def ofMap (map : OrderedMap Text) : Fallback := map.get?

/-- Answers with the first pair that has the key. -/
def ofPairs (pairs : List (Text × Text)) : Fallback := fun key => pairs.lookup key

end Fallback

end LayeredConfig
