import InstallerRegistry.Export.Fault
import InstallerRegistry.Files
import InstallerRegistry.Hive
import InstallerRegistry.Pattern
import InstallerRegistry.Yaml.Value

/-!
# Errors

Everything that can go wrong on the way from a manifest or an export to a fragment, by its cause.
`RegistryError.message` is the wording; no other function of the library looks at it.
-/

namespace InstallerRegistry

/-- A value that is of no type the registry has. -/
inductive UnsupportedValue where
  /-- An integer of more than thirty-two bits. -/
  | wideInteger (n : Int)
  | fraction (x : Binary64)
  | boolean (b : Bool)
  | sequence
  /-- A mapping that has not one pair, but this many. -/
  | pairs (count : Nat)
  /-- A number that is no integer of sixteen bits, where one is announced. -/
  | int16 (n : Yaml.Number)
  /-- A mapping whose one key announces no type. -/
  | form (key : Text)
  /-- A mapping whose one key is no text. -/
  | mapping
  | tagged (tag : Yaml.Tag)
  /-- An export's number of sixty-four bits. -/
  | qword
  /-- An export's data of another type. -/
  | dataType (kind : Text)
deriving Repr

/-- The wording of what is not supported. -/
def UnsupportedValue.message : UnsupportedValue → Text
  | wideInteger n => "64-bit integer ".toList ++ Text.ofInt n
  | fraction x => "floating point number ".toList ++ Yaml.Number.ofBinary64 x
  | boolean b => "boolean ".toList ++ Yaml.textOfBool b
  | sequence => "sequence".toList
  | pairs count => "mapping with ".toList ++ Text.ofNat count ++ " keys".toList
  | int16 n => "int16 out of range: ".toList ++ n.text
  | form key => "mapping tagged '".toList ++ key ++ ['\'']
  | mapping => "mapping".toList
  | tagged t => "tagged value ".toList ++ t.text
  | qword => "REG_QWORD".toList
  | dataType kind => "registry data type hex(".toList ++ kind ++ [')']

/-- A field of a manifest that must not be empty. -/
inductive RequiredField where
  | fragment
  | directory
  | featureId
  | registryKey
  | exportPath
  | propertyId
  | propertyKey
  | launchCondition
  | launchMessage
deriving DecidableEq, Repr

/-- The name of a field, behind the list that it is in. -/
def RequiredField.name : RequiredField → Text
  | fragment => "fragment".toList
  | directory => "directory".toList
  | featureId => "features.id".toList
  | registryKey => "registry.key".toList
  | exportPath => "reg_files.path".toList
  | propertyId => "properties.id".toList
  | propertyKey => "properties.key".toList
  | launchCondition => "launch_conditions.condition".toList
  | launchMessage => "launch_conditions.message".toList

/-- What in a manifest contradicts itself or its surroundings. -/
inductive ConfigurationFault where
  | duplicateFeature (id : Text)
  | duplicateProperty (id : Text)
  /-- A key starts like a hive that does not exist. -/
  | unknownHive (name : Text)
  /-- A value has a name that is neither a text, a number nor a truth value. -/
  | valueName (name : Yaml.Value)
  /-- A value has a field that values do not have. -/
  | valueField (key : Yaml.Value)
  /-- A pattern matches no file. -/
  | noMatch (pattern : Text)
  | invalidId (id : Text)
  | duplicateId (id : Text)
deriving Repr

/-- The wording of a contradiction. -/
def ConfigurationFault.message : ConfigurationFault → Text
  | duplicateFeature id => "duplicate feature id: ".toList ++ id
  | duplicateProperty id => "duplicate property id: ".toList ++ id
  | unknownHive name => "unknown registry hive in key: ".toList ++ name
  | valueName name => "invalid registry value name: ".toList ++ name.describe
  | valueField key => "unexpected field in registry value: ".toList ++ key.describe
  | noMatch pattern => "no .reg files match ".toList ++ pattern
  | invalidId id => '\'' :: id ++ "' is not a valid WiX identifier".toList
  | duplicateId id => "Duplicate value id '".toList ++ id ++ ['\'']

/-- **Why an operation fails.** -/
inductive RegistryError where
  | unsupportedValue (value : UnsupportedValue)
  /-- An entry has no value. -/
  | unset (name : Text)
  /-- No installer writes to the hive. -/
  | unwritableHive (hive : Hive)
  | invalidBinary (error : Hex.Error)
  | exportSyntax (line : Nat) (fault : Export.Fault)
  /-- A text is no YAML document, or not one of a manifest. -/
  | yaml
  | file (failure : FileFailure)
  | pattern (error : PatternError)
  | configuration (fault : ConfigurationFault)
  | missingField (field : RequiredField)
  | unknownFeature (id : Text)
deriving Repr

namespace RegistryError

/-- What is said of a text that is no document, or not one of a manifest. -/
def yamlMessage : Text := "the text does not describe what is expected".toList

/-- The wording of an error. -/
def message : RegistryError → Text
  | unsupportedValue v => "Unsupported registry value type: ".toList ++ v.message
  | unset name => "Registry value '".toList ++ name ++ "' has no value set".toList
  | unwritableHive hive =>
    "Hive ".toList ++ hive.shortName ++ " cannot be written by an installer".toList
  | invalidBinary error => "Invalid binary value: ".toList ++ error.message
  | exportSyntax line fault =>
    "Invalid .reg content at line ".toList ++ Text.ofNat line ++ [':', ' '] ++ fault.message
  | yaml => "Failed to parse YAML: ".toList ++ yamlMessage
  | file failure => "Failed to read file: ".toList ++ failure.message
  | pattern error => "Invalid file pattern: ".toList ++ error.message
  | configuration fault => "Invalid configuration: ".toList ++ fault.message
  | missingField field => "Missing required field: ".toList ++ field.name
  | unknownFeature id => "Unknown feature: ".toList ++ id

/-- The wording of the cause of an error, where the cause has one of its own. -/
def cause? : RegistryError → Option Text
  | invalidBinary error => some error.message
  | yaml => some yamlMessage
  | file failure => some failure.message
  | pattern error => some error.message
  | _ => none

end RegistryError

end InstallerRegistry
