import Mathlib.Data.BitVec

namespace AmxModC

abbrev Cell := BitVec 32

instance : LawfulBEq Cell := inferInstance

abbrev Amx := Nat

end AmxModC
