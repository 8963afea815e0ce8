/-!
# Faults in pattern text

What can be wrong with the text of a pattern.
-/

namespace LineLexer

/-- Why a text is not the text of a pattern. -/
inductive PatternFault where
  | finalBackslash
  | unknownEscape
  | backReference
  | badCodePoint
  | unclosedSet
  | setOperation
  | badRange
  | badSetMember
  | splitsCharacters
  | lookAround
  | badFlags
  | badGroupName
  | repeatedGroupName
  | unclosedGroup
  | unopenedGroup
  | missingOperand
  | badCount
  deriving DecidableEq

namespace PatternFault

/-- The fault in words. -/
def message : PatternFault → String
  | .finalBackslash => "a backslash ends the pattern"
  | .unknownEscape => "unknown escape"
  | .backReference => "references to groups are not supported"
  | .badCodePoint => "malformed code point"
  | .unclosedSet => "unclosed character set"
  | .setOperation => "operations between character sets are not supported"
  | .badRange => "the range ends before it begins"
  | .badSetMember => "not a member of a character set"
  | .splitsCharacters => "the pattern could match a part of a character"
  | .lookAround => "look-around groups are not supported"
  | .badFlags => "malformed flags"
  | .badGroupName => "malformed group name"
  | .repeatedGroupName => "repeated group name"
  | .unclosedGroup => "unclosed group"
  | .unopenedGroup => "unopened group"
  | .missingOperand => "nothing to repeat"
  | .badCount => "malformed repetition count"

end PatternFault

end LineLexer
