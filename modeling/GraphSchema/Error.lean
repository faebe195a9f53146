import GraphSchema.Field.Kind

namespace GraphSchema

-- What quotes a value holds the text that the value had when the call was refused.
inductive Misuse
  -- names
  | badName (what got : String)
  -- fields and their directives
  | baseType (got : String)
  | notAField (directive : NodeKind) (got : String)
  | cannotWrap (directive inner : NodeKind)
  | applied (directive : NodeKind)
  | onReference (directive : NodeKind) (shape : String)
  | nestedList
  | listAfterDirective
  | lengthOn (shape : String)
  | lengthUnbounded
  | boundNotInteger (bound got : String)
  | boundNegative (bound : String) (n : Int)
  | boundsCrossed (min max : Nat)
  | scopeIsText (got : String)
  | scopeName (got : String)
  -- default values
  | nullDefault
  | referenceDefault (shape : String)
  | listDefault (shape got : String)
  | listItem (item shape : String)
  | defaultValue (got shape : String)
  -- auth rules
  | noRules
  | notCallable (got : String)
  | noGroups (got : String)
  | groupName (got : String)
  -- caches
  | invalidationField (got : String)
  | invalidationPolicy (got : String)
  | secondsNotInteger (what got : String)
  | secondsNegative (what : String) (n : Int)
  -- definitions
  | notAMapping (owner got : String)
  | notAFieldOf (owner name got : String)
  | emptyInterface (name : String)
  | emptyType (name : String)
  | notAnInterface (type got : String)
  | implemented (type interface : String)
  | enumValuesText (got : String)
  | reservedValue (value : String)
  | repeatedValue (value : String)
  | emptyEnum (name : String)
  -- registries, builders and configurations
  | wrongKind (expected got : String)
  | notAnEnum (got : String)
  | notATarget (got : String)
  | namesOther (name kind expected : String)
  | noSchema
  | notABuilder (got : String)
  deriving DecidableEq

namespace Misuse

def message : Misuse → String
  | badName what got => "Invalid " ++ what ++ " name \"" ++ got ++ "\""
  | baseType got => "Invalid field base type " ++ got
  | notAField d got => "@" ++ d.word ++ " must wrap a field definition, got " ++ got
  | cannotWrap d i => "@" ++ d.word ++ " cannot be applied to a " ++ i.name ++ " field"
  | applied d => "@" ++ d.word ++ " is already applied to this field"
  | onReference d s => "@" ++ d.word ++ " cannot be applied to reference field " ++ s
  | nestedList => "Nested lists are not supported"
  | listAfterDirective =>
    "Only undecorated scalar fields can be turned into lists, "
      ++ "call list() before adding directives"
  | lengthOn s => "@length can only be applied to string fields, got " ++ s
  | lengthUnbounded => "@length requires at least min or max"
  | boundNotInteger b got => "Length " ++ b ++ " must be an integer, got " ++ got
  | boundNegative b n => "Length " ++ b ++ " must be positive, got " ++ toString n
  | boundsCrossed min max =>
    "Length min (" ++ toString min ++ ") cannot be greater than max (" ++ toString max ++ ")"
  | scopeIsText got => "Unique scope must be a list of field names, got " ++ got
  | scopeName got => "Invalid field name " ++ got ++ " in unique scope"
  | nullDefault => "Default value cannot be null"
  | referenceDefault s => "Reference field " ++ s ++ " cannot have a default value"
  | listDefault s got => "Expected a list as default for " ++ s ++ ", got " ++ got
  | listItem i s => "Invalid list item " ++ i ++ " for default of " ++ s
  | defaultValue got s => "Invalid default value " ++ got ++ " for " ++ s
  | noRules => "At least one auth rule is required"
  | notCallable got => "Expected a callable building auth rules, got " ++ got
  | noGroups got => "Expected a non empty list of group names, got " ++ got
  | groupName got => "Invalid group name " ++ got
  | invalidationField got => "Invalid mutation invalidation field " ++ got
  | invalidationPolicy got =>
    "Unknown mutation invalidation policy " ++ got ++ ", expected one of entity, type, list"
  | secondsNotInteger what got =>
    what ++ " must be an integer number of seconds, got " ++ got
  | secondsNegative what n => what ++ " must be positive, got " ++ toString n
  | notAMapping owner got => "Fields of " ++ owner ++ " must be a mapping, got " ++ got
  | notAFieldOf owner name got =>
    "Field " ++ owner ++ "." ++ name ++ " must be a field definition, got " ++ got
  | emptyInterface name => "Interface " ++ name ++ " has no fields"
  | emptyType name => "Type " ++ name ++ " has no fields"
  | notAnInterface type got => "Type " ++ type ++ " can only implement interfaces, got " ++ got
  | implemented type interface => "Type " ++ type ++ " already implements " ++ interface
  | enumValuesText got => "Enum values must be a list of names, got " ++ got
  | reservedValue v => "Enum value \"" ++ v ++ "\" is reserved"
  | repeatedValue v => "Duplicate enum value " ++ v
  | emptyEnum name => "Enum " ++ name ++ " has no values"
  | wrongKind expected got => "Expected " ++ expected ++ ", got " ++ got
  | notAnEnum got => "Expected an enum, got " ++ got
  | notATarget got => "Expected a type or interface, got " ++ got
  | namesOther name kind expected => name ++ " is a " ++ kind ++ ", expected " ++ expected
  | noSchema => "A schema is required"
  | notABuilder got => "Expected a schema builder, got " ++ got

end Misuse

structure Conflict where
  field : String
  -- The later of the two declarations, then the one it differs from.
  owner : String
  type : String
  firstOwner : String
  firstType : String
  deriving DecidableEq, Inhabited

def Conflict.message (c : Conflict) : String :=
  "Field \"" ++ c.field ++ "\" of " ++ c.owner ++ " has type " ++ c.type ++ " but "
    ++ c.firstOwner ++ "." ++ c.field ++ " is " ++ c.firstType

inductive TypeFault
  | notIterable (type : String)
  | unhashable (type : String)
  | signalingHash
  | noSize (type : String)
  | notContainer (type : String)
  | textInclusion (type : String)
  | nothingToFormat
  | leftoverToFormat
  | noLiteral (got : String)
  | notADefinition (got : String)
  | cannotAdd (left right : String)
  | cannotConcat (left right : String)
  | cannotConcatBytes (left right : String)
  | notText (index : Nat) (type : String)
  | noJson (type : String)
  | noJsonKey (type : String)
  | notPattern (type : String)
  | patternOnBytes
  | notCallable (type : String)
  | memberTwice (got value : String)
  | noMembership (type : String)
  | notOctets (type : String)
  | noMembers (got : String)
  | missing (function : String) (parameters : List String)
  | tooMany (function : String) (least most given : Nat)
  | unexpected (function parameter : String)
  | twice (function parameter : String)
  deriving DecidableEq

namespace TypeFault

def quoted (s : String) : String := "'" ++ s ++ "'"

def listed : List String → String
  | [] => ""
  | [a] => a
  | [a, b] => a ++ " and " ++ b
  | as => ", ".intercalate as.dropLast ++ ", and " ++ (as.getLast?.getD "")

def message : TypeFault → String
  | notIterable t => quoted t ++ " object is not iterable"
  | unhashable t => "unhashable type: " ++ quoted t
  | signalingHash => "Cannot hash a signaling NaN value"
  | noSize t => "object of type " ++ quoted t ++ " has no len()"
  | notContainer t => "argument of type " ++ quoted t ++ " is not iterable"
  | textInclusion t => "'in <string>' requires string as left operand, not " ++ t
  | nothingToFormat => "not enough arguments for format string"
  | leftoverToFormat => "not all arguments converted during string formatting"
  | noLiteral got => "Cannot print " ++ got ++ " as a GraphQL value"
  | notADefinition got => got
  | cannotAdd t u => "unsupported operand type(s) for +: " ++ quoted t ++ " and " ++ quoted u
  | cannotConcat t u => "can only concatenate " ++ t ++ " (not \"" ++ u ++ "\") to " ++ t
  | cannotConcatBytes t u => "can't concat " ++ u ++ " to " ++ t
  | notText i t =>
    "sequence item " ++ toString i ++ ": expected str instance, " ++ t ++ " found"
  | noJson t => "Object of type " ++ t ++ " is not JSON serializable"
  | noJsonKey t => "keys must be str, int, float, bool or None, not " ++ t
  | notPattern t => "expected string or bytes-like object, got " ++ quoted t
  | patternOnBytes => "cannot use a string pattern on a bytes-like object"
  | notCallable t => quoted t ++ " object is not callable"
  | memberTwice got value => got ++ " already defined as " ++ value
  | noMembership t => "unsupported operand type(s) for 'in': " ++ quoted t ++ " and 'EnumType'"
  | notOctets t => "a bytes-like object is required, not " ++ quoted t
  | noMembers got => got ++ " has no members defined"
  | missing f ps =>
    f ++ "() missing " ++ toString ps.length ++ " required positional argument"
      ++ (if ps.length = 1 then "" else "s") ++ ": " ++ listed (ps.map quoted)
  | tooMany f least most given =>
    f ++ "() takes "
      ++ (if least = most then toString most
          else "from " ++ toString least ++ " to " ++ toString most)
      ++ " positional argument" ++ (if least = 1 ∧ most = 1 then "" else "s")
      ++ " but " ++ toString given
      ++ (if given = 1 then " was given" else " were given")
  | unexpected f p => f ++ "() got an unexpected keyword argument " ++ quoted p
  | twice f p => f ++ "() got multiple values for argument " ++ quoted p

end TypeFault

inductive ArithmeticFault
  | tooLarge
  | signaling
  | noDecimal
  | notInRange
  | overflow
  | tooLong
  | noIndex
  | noMemory
  deriving DecidableEq

namespace ArithmeticFault

def message : ArithmeticFault → String
  | tooLarge => "int too large to convert to float"
  | signaling => "[<class 'decimal.InvalidOperation'>]"
  | noDecimal => "[<class 'decimal.ConversionSyntax'>]"
  | notInRange => "[<class 'decimal.InvalidOperation'>]"
  | overflow => "[<class 'decimal.Overflow'>]"
  | tooLong => "Python int too large to convert to C ssize_t"
  | noIndex => "cannot fit 'int' into an index-sized integer"
  | noMemory => ""

end ArithmeticFault

inductive ValueFault
  | notAScalar (got : String)
  | notAMember (got type : String)
  | notANumber (got : String)
  | octet
  | octets
  | year (n : Int)
  | month
  | day
  | hour
  | minute
  | second
  | micro
  | offset (got : String)
  | noStep
  | reservedMember (got : String)
  | memberName (got : String)
  deriving DecidableEq

namespace ValueFault

def message : ValueFault → String
  | notAScalar got => got ++ " is not a valid ScalarKind"
  | notAMember got type => got ++ " is not a valid " ++ type
  | notANumber got => "could not convert string to float: " ++ got
  | octet => "byte must be in range(0, 256)"
  | octets => "bytes must be in range(0, 256)"
  | year n => "year " ++ toString n ++ " is out of range"
  | month => "month must be in 1..12"
  | day => "day is out of range for month"
  | hour => "hour must be in 0..23"
  | minute => "minute must be in 0..59"
  | second => "second must be in 0..59"
  | micro => "microsecond must be in 0..999999"
  | offset got =>
    "offset must be a timedelta strictly between -timedelta(hours=24) and "
      ++ "timedelta(hours=24), not " ++ got ++ "."
  | noStep => "range() arg 3 must not be zero"
  | reservedMember got =>
    "_sunder_ names, such as " ++ got ++ ", are reserved for future Enum use"
  | memberName got => "invalid enum member name(s) " ++ got

end ValueFault

inductive Error
  | misuse (m : Misuse)
  | duplicate (name : String)
  | conflict (c : Conflict)
  | unknown (name : String)
  | type (t : TypeFault)
  | arithmetic (a : ArithmeticFault)
  | noProperty (type property : String)
  -- A class of enum members has its members for properties.
  | noMember (name : String)
  | value (v : ValueFault)
  deriving DecidableEq

namespace Error

instance : Inhabited Error := ⟨misuse .noSchema⟩

def message : Error → String
  | misuse m => m.message
  | duplicate name => "Duplicate definition \"" ++ name ++ "\""
  | conflict c => c.message
  | unknown name => "Unknown definition " ++ name
  | type t => t.message
  | arithmetic a => a.message
  | noMember name => name
  | noProperty t a => "'" ++ t ++ "' object has no attribute '" ++ a ++ "'"
  | value v => v.message

end Error

end GraphSchema
