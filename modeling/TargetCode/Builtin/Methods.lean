import TargetCode.MethodTable

/-!
The methods that the running program offers to the built-in operations.
Their numbers are fixed for good, since running programs dispatch on them.
-/

namespace TargetCode

namespace MethodId

def listsFlat : Nat := 0x0100
def listsFlatDepth : Nat := 0x0101
def listSize : Nat := 0x0102
def mathMax : Nat := 0x0200
def mathMin : Nat := 0x0201
def mathRound : Nat := 0x0202
def mathRoundDigits : Nat := 0x0203
def stringsContains : Nat := 0x0300
def sanitizersEscapeHtml : Nat := 0x0400
def sanitizersCleanHtml : Nat := 0x0401
def sanitizersCleanHtmlTags : Nat := 0x0402

end MethodId

/-- The name under which a method number is reported. -/
def methodName (id : Nat) : String :=
  if id = MethodId.listsFlat || id = MethodId.listsFlatDepth then "Lists.flat"
  else if id = MethodId.listSize then "List.size"
  else if id = MethodId.mathMax then "Math.max"
  else if id = MethodId.mathMin then "Math.min"
  else if id = MethodId.mathRound || id = MethodId.mathRoundDigits then "Math.round"
  else if id = MethodId.stringsContains then "Strings.contains"
  else if id = MethodId.sanitizersEscapeHtml then "Sanitizers.escapeHtml"
  else if id = MethodId.sanitizersCleanHtml || id = MethodId.sanitizersCleanHtmlTags then
    "Sanitizers.cleanHtml"
  else "unknown"

/-- All methods of the running program. -/
def builtinMethods : List Method :=
  [⟨MethodId.listsFlat, "Lists", "flat", 1, .static⟩,
   ⟨MethodId.listsFlatDepth, "Lists", "flat", 2, .static⟩,
   ⟨MethodId.listSize, "List", "size", 0, .bound⟩,
   ⟨MethodId.mathMax, "Math", "max", 2, .static⟩,
   ⟨MethodId.mathMin, "Math", "min", 2, .static⟩,
   ⟨MethodId.mathRound, "Math", "round", 1, .static⟩,
   ⟨MethodId.mathRoundDigits, "Math", "round", 2, .static⟩,
   ⟨MethodId.stringsContains, "Strings", "contains", 2, .static⟩,
   ⟨MethodId.sanitizersEscapeHtml, "Sanitizers", "escapeHtml", 1, .static⟩,
   ⟨MethodId.sanitizersCleanHtml, "Sanitizers", "cleanHtml", 1, .static⟩,
   ⟨MethodId.sanitizersCleanHtmlTags, "Sanitizers", "cleanHtml", 2, .static⟩]

def MethodTable.builtin : Except Error MethodTable :=
  let filled := MethodTable.empty.registerAll builtinMethods
  filled.result.map fun _ => filled.table

end TargetCode
