import NodeSchema.Text.Position
import NodeSchema.Text.Quoted

/-!
# What can go wrong

Every failure of the library is a value of `Failure`, which tells the cause; the wording is in
`Failure.message` alone.  A failure at a place of a text carries a `Complaint`.  Failures are
sorted into categories: a source text that does not parse, a complaint at a place, a construct
that the schema cannot express, a bad configuration, a bad schema text, a failure of the run, and
a fault that no command reports by itself.
-/

set_option autoImplicit false

namespace NodeSchema

open Text (Position)

/-! ## Complaints about a place -/

/-- What is wrong at a place of a text. -/
inductive Complaint
  /-- A fixed piece of text was due. -/
  | expected (text : String)
  | expectedIdentifier
  | expectedPath
  | expectedString
  /-- A `path` attribute that does not name a file. -/
  | expectedPathAttribute
  /-- The expansion of a spelling rule is not a path. -/
  | expectedTokenPath
  /-- An item of the given kind was due. -/
  | expectedDeclaration (kind : String)
  | unexpectedToken
  /-- A piece of text that is no part of what the grammar allows. -/
  | unexpectedText (text : String)
  | unexpectedEnd
  /-- A closing delimiter that does not match. -/
  | unexpectedCloser (text : String)
  | unclosedDelimiter
  /-- A second item where one was due. -/
  | afterDeclaration
deriving DecidableEq, Repr

/-- The wording of a complaint. -/
def Complaint.text : Complaint → String
  | .expected t => "expected `" ++ t ++ "`"
  | .expectedIdentifier => "expected identifier"
  | .expectedPath => "expected path"
  | .expectedString => "expected string literal"
  | .expectedPathAttribute => "expected `path = \"...\"`"
  | .expectedTokenPath => "expected `$` followed by a path"
  | .expectedDeclaration kind => "expected " ++ kind ++ " declaration"
  | .unexpectedToken => "unexpected token"
  | .unexpectedText t => "unexpected token `" ++ t ++ "`"
  | .unexpectedEnd => "unexpected end of input"
  | .unexpectedCloser t => "unexpected `" ++ t ++ "`"
  | .unclosedDelimiter => "unclosed delimiter"
  | .afterDeclaration => "unexpected token after declaration"

/-! ## Access to files -/

/-- Why a file could not be used. -/
inductive FileFault
  | missing
  | isDirectory
  | notDirectory
  | alreadyExists
  | nameTooLong
deriving DecidableEq, Repr

/-- The system's number and wording for a fault. -/
def FileFault.description : FileFault → String
  | .missing => "[Errno 2] No such file or directory"
  | .isDirectory => "[Errno 21] Is a directory"
  | .notDirectory => "[Errno 20] Not a directory"
  | .alreadyExists => "[Errno 17] File exists"
  | .nameTooLong => "[Errno 36] File name too long"

/-- A fault together with the path that it concerns. -/
def FileFault.about (fault : FileFault) (path : String) : String :=
  fault.description ++ ": " ++ Text.quoted path

/-! ## Faults that no command reports -/

/-- A fault that ends a run without a diagnostic of its own. -/
inductive Fault
  | notUtf8
  | wrongType
  | badValue
  | missingKey
  /-- An item of a text or list that is not there. -/
  | missingItem
  /-- A part of a value that is not there. -/
  | missingPart
  /-- The modules of a crate include each other without end. -/
  | endless
  | file (fault : FileFault)
deriving DecidableEq, Repr

/-! ## Failures -/

/-- The cause of a failure. -/
inductive Failure
  /-- The source text at `path` is not well formed. -/
  | unparsable (path : String)
  /-- A complaint about a place of the text at `path`. -/
  | located (path : String) (position : Position) (complaint : Complaint)
  /-- Two gates on one declaration of which neither contains the other. -/
  | incompatibleGates (first second : List String)
  | unsupportedCfg (shown : String)
  | unsupportedPredicate (arguments : String)
  | unsupportedStruct (ident : String)
  | unsupportedVariant (ident variant : String)
  | unknownToken (spelling : String)
  | unsupportedType (shown : String)
  | missingTypeArgument (shown : String)
  | separatorNotToken (shown : String)
  | unknownType (name : String)
  | aliasCycle (name : String)
  | twoSpellings (symbol first second : String)
  | noSpellingTable (path : String)
  | unreadableModule (path : String) (fault : FileFault) (full : String)
  | unreadableSpellings (path : String) (fault : FileFault) (full : String)
  | crateMissing (path : String)
  | manifestMissing (path : String)
  | manifestMalformed (path : String)
  | versionMissing (path : String)
  | configNotMapping
  | gatesNotMapping
  | configMalformed
  | invalidJson (detail : String)
  | notTypeObject (shown : String)
  | unknownTypeTag (tag : String)
  | notNodeObject (shown : String)
  | notSchemaObject
  | schemaPartsMissing
  /-- A fault that is not reported. -/
  | unreported (fault : Fault)
deriving DecidableEq, Repr

/-- The sorts of failures. -/
inductive Failure.Category
  /-- A text that does not parse. -/
  | grammar
  /-- A complaint at a place. -/
  | place
  /-- A construct that the schema cannot express. -/
  | construct
  | config
  | schema
  /-- Any other reported failure of a run. -/
  | run
  /-- A fault that is not reported. -/
  | unreported
deriving DecidableEq, Repr

namespace Failure

/-- The sort of a failure. -/
def category : Failure → Category
  | .unparsable _ => .grammar
  | .located _ _ _ => .place
  | .incompatibleGates _ _ | .unsupportedCfg _ | .unsupportedPredicate _ | .unsupportedStruct _
  | .unsupportedVariant _ _ | .unknownToken _ | .unsupportedType _ | .missingTypeArgument _
  | .separatorNotToken _ | .unknownType _ | .aliasCycle _ | .twoSpellings _ _ _
  | .noSpellingTable _ => .construct
  | .unreadableModule _ _ _ | .unreadableSpellings _ _ _ | .crateMissing _ | .manifestMissing _
  | .manifestMalformed _ | .versionMissing _ => .run
  | .configNotMapping | .gatesNotMapping | .configMalformed => .config
  | .invalidJson _ | .notTypeObject _ | .unknownTypeTag _ | .notNodeObject _ | .notSchemaObject
  | .schemaPartsMissing => .schema
  | .unreported _ => .unreported

/-- The name of the configuration file. -/
def configName : String := ".astschema.yml"

/-- The wording of a failure. -/
def message : Failure → String
  | .unparsable path => path ++ ": syntax error"
  | .located path place complaint =>
    path ++ ":" ++ toString place.line ++ ":" ++ toString place.column ++ ": " ++ complaint.text
  | .incompatibleGates a b =>
    "incompatible feature predicates: any(" ++ ", ".intercalate a ++ ") and any("
      ++ ", ".intercalate b ++ ")"
  | .unsupportedCfg t => "unsupported cfg attribute: " ++ t
  | .unsupportedPredicate t => "unsupported cfg predicate: " ++ t
  | .unsupportedStruct i => "struct representation not supported: " ++ i
  | .unsupportedVariant i v => "enum representation not supported: " ++ i ++ "::" ++ v
  | .unknownToken t => "unknown token: " ++ t
  | .unsupportedType t => "unsupported type: " ++ t
  | .missingTypeArgument t => "expected a type argument: " ++ t
  | .separatorNotToken t => "punctuated separator must be a token: " ++ t
  | .unknownType n => "unknown type: " ++ n
  | .aliasCycle n => "alias cycle while resolving " ++ n
  | .twoSpellings s a b =>
    "token " ++ s ++ " has two spellings: `" ++ a ++ "` and `" ++ b ++ "`"
  | .noSpellingTable path => path ++ ": no `macro_rules! Token` definition found"
  | .unreadableModule path fault full =>
    path ++ ": failed to read module file: " ++ fault.about full
  | .unreadableSpellings path fault full =>
    "failed to read token file " ++ path ++ ": " ++ fault.about full
  | .crateMissing path => "Crate directory not found: " ++ path
  | .manifestMissing path => "Cargo manifest not found: " ++ path
  | .manifestMalformed path => "Failed to parse " ++ path
  | .versionMissing path => path ++ " does not declare [package] version"
  | .configNotMapping => configName ++ " must contain a mapping at the root"
  | .gatesNotMapping => "crawl.module_features must be a mapping of module -> feature"
  | .configMalformed => "Failed to parse " ++ configName
  | .invalidJson detail => "invalid schema JSON: " ++ detail
  | .notTypeObject shown => "expected a single-key type object, got " ++ shown
  | .unknownTypeTag tag => "unknown type tag: " ++ tag
  | .notNodeObject shown => "expected a node object, got " ++ shown
  | .notSchemaObject => "schema must be a JSON object"
  | .schemaPartsMissing => "schema requires `types` list and `tokens` object"
  | .unreported _ => ""

end Failure
end NodeSchema
