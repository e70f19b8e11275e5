/-!
# Value witnesses

A value witness is an entry of a type's value witness table. The mangling names it by a code of two
letters, a symbol tree by its position in the table.
-/

namespace Demangle

/-- The entries of a value witness table. -/
inductive ValueWitness where
  | allocateBuffer
  | assignWithCopy
  | assignWithTake
  | deallocateBuffer
  | destroy
  | destroyArray
  | destroyBuffer
  | initializeBufferWithCopyOfBuffer
  | initializeBufferWithCopy
  | initializeWithCopy
  | initializeBufferWithTake
  | initializeWithTake
  | projectBuffer
  | initializeBufferWithTakeOfBuffer
  | initializeArrayWithCopy
  | initializeArrayWithTakeFrontToBack
  | initializeArrayWithTakeBackToFront
  | storeExtraInhabitant
  | getExtraInhabitantIndex
  | getEnumTag
  | destructiveProjectEnumData
  | destructiveInjectEnumTag
  | getEnumTagSinglePayload
  | storeEnumTagSinglePayload
  deriving DecidableEq, Inhabited, Repr

namespace ValueWitness

/-- The entries in the order of the table. -/
def all : List ValueWitness :=
  [.allocateBuffer, .assignWithCopy, .assignWithTake, .deallocateBuffer, .destroy, .destroyArray,
   .destroyBuffer, .initializeBufferWithCopyOfBuffer, .initializeBufferWithCopy,
   .initializeWithCopy, .initializeBufferWithTake, .initializeWithTake, .projectBuffer,
   .initializeBufferWithTakeOfBuffer, .initializeArrayWithCopy,
   .initializeArrayWithTakeFrontToBack, .initializeArrayWithTakeBackToFront, .storeExtraInhabitant,
   .getExtraInhabitantIndex, .getEnumTag, .destructiveProjectEnumData, .destructiveInjectEnumTag,
   .getEnumTagSinglePayload, .storeEnumTagSinglePayload]

/-- The two letters that name an entry. -/
def code : ValueWitness → String
  | .allocateBuffer => "al"
  | .assignWithCopy => "ca"
  | .assignWithTake => "ta"
  | .deallocateBuffer => "de"
  | .destroy => "xx"
  | .destroyArray => "Xx"
  | .destroyBuffer => "XX"
  | .initializeBufferWithCopyOfBuffer => "CP"
  | .initializeBufferWithCopy => "Cp"
  | .initializeWithCopy => "cp"
  | .initializeBufferWithTake => "Tk"
  | .initializeWithTake => "tk"
  | .projectBuffer => "pr"
  | .initializeBufferWithTakeOfBuffer => "TK"
  | .initializeArrayWithCopy => "Cc"
  | .initializeArrayWithTakeFrontToBack => "Tt"
  | .initializeArrayWithTakeBackToFront => "tT"
  | .storeExtraInhabitant => "xs"
  | .getExtraInhabitantIndex => "xg"
  | .getEnumTag => "ug"
  | .destructiveProjectEnumData => "up"
  | .destructiveInjectEnumTag => "ui"
  | .getEnumTagSinglePayload => "et"
  | .storeEnumTagSinglePayload => "st"

/-- The printed name of an entry. -/
def name : ValueWitness → String
  | .allocateBuffer => "allocateBuffer"
  | .assignWithCopy => "assignWithCopy"
  | .assignWithTake => "assignWithTake"
  | .deallocateBuffer => "deallocateBuffer"
  | .destroy => "destroy"
  | .destroyArray => "destroyArray"
  | .destroyBuffer => "destroyBuffer"
  | .initializeBufferWithCopyOfBuffer => "initializeBufferWithCopyOfBuffer"
  | .initializeBufferWithCopy => "initializeBufferWithCopy"
  | .initializeWithCopy => "initializeWithCopy"
  | .initializeBufferWithTake => "initializeBufferWithTake"
  | .initializeWithTake => "initializeWithTake"
  | .projectBuffer => "projectBuffer"
  | .initializeBufferWithTakeOfBuffer => "initializeBufferWithTakeOfBuffer"
  | .initializeArrayWithCopy => "initializeArrayWithCopy"
  | .initializeArrayWithTakeFrontToBack => "initializeArrayWithTakeFrontToBack"
  | .initializeArrayWithTakeBackToFront => "initializeArrayWithTakeBackToFront"
  | .storeExtraInhabitant => "storeExtraInhabitant"
  | .getExtraInhabitantIndex => "getExtraInhabitantIndex"
  | .getEnumTag => "getEnumTag"
  | .destructiveProjectEnumData => "destructiveProjectEnumData"
  | .destructiveInjectEnumTag => "destructiveInjectEnumTag"
  | .getEnumTagSinglePayload => "getEnumTagSinglePayload"
  | .storeEnumTagSinglePayload => "storeEnumTagSinglePayload"

/-- The position of an entry in the table. -/
def index (w : ValueWitness) : UInt64 :=
  UInt64.ofNat (all.idxOf w)

/-- The entry with the given code. -/
def ofCode? (s : String) : Option ValueWitness :=
  all.find? (·.code == s)

/-- The entry at the given position. -/
def ofIndex? (n : UInt64) : Option ValueWitness :=
  all[n.toNat]?

end ValueWitness

/-- Whether a field offset is stored in place or behind a pointer. -/
inductive Directness where
  | direct
  | indirect
  deriving DecidableEq, Inhabited, Repr

namespace Directness

/-- The number that stands for a directness. -/
def index : Directness → UInt64
  | .direct => 0
  | .indirect => 1

/-- The directness with the given number. -/
def ofIndex? (n : UInt64) : Option Directness :=
  if n == 0 then some .direct else if n == 1 then some .indirect else none

/-- The printed name. -/
def name : Directness → String
  | .direct => "direct"
  | .indirect => "indirect"

end Directness

end Demangle
