import Containers.Memory.Layout
import Containers.Text.Shown

/-! The elements and keys that containers hold: how many bytes each occupies,
and how keys are compared. -/
namespace Containers

instance : Stored Int64 where
  layout := .word

instance : Stored UInt8 where
  layout := { size := 1, align := 1 }

instance : Stored String where
  layout := Layout.word.array 3

instance : Stored Unit where
  layout := { size := 0, align := 1 }

/-- A text that is compared without regard to the case of the letters A to Z
and keeps its spelling. -/
structure Caseless where
  spelling : String

namespace Caseless

/-- The spelling with A to Z in lower case. -/
def folded (key : Caseless) : String :=
  key.spelling.map Char.toLower

instance : Ord Caseless where
  compare x y := compare x.folded y.folded

instance : BEq Caseless where
  beq x y := x.folded == y.folded

instance : Shown Caseless where
  text key := Text.quoted key.spelling

instance : Stored Caseless where
  layout := Layout.word.array 3

end Caseless

/-- A value that is filed under a key of its own. -/
class Keyed (α : Type) (κ : outParam Type) where
  key : α → κ

/-- A value that is its own key. -/
structure Member (κ : Type) where
  key : κ

instance : Keyed (Member κ) κ where
  key := Member.key

instance [Stored κ] : Stored (Member κ) where
  layout := Stored.layout κ

instance [Shown κ] : Shown (Member κ) where
  text member := "KeyWrapper(" ++ Shown.text member.key ++ ")"

/-- A pair is filed under its first component. -/
instance : Keyed (κ × ν) κ where
  key := Prod.fst

end Containers
