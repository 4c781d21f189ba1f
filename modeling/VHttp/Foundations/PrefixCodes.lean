import Mathlib.Data.List.Basic
import Mathlib.Order.Antichain

/-!
# Prefix codes

Words none of which begins another one need nothing between them. Whatever words a reader finds
from the beginning of a sequence on are those that it was made of, also if it has not come to its
end yet, and as far as it is made of words at all.
-/

namespace VHttp

universe u
variable {α : Type u}

namespace PrefixCode

variable {code : Set (List α)} {word other : List α} {read words : List (List α)}

end PrefixCode

end VHttp
